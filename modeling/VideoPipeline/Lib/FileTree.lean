import Mathlib.Data.List.Infix
import Mathlib.Data.List.Nodup
import Mathlib.Data.Nat.Find
import VideoPipeline.Lib.Store

/-!
# File trees with symbolic links

A file tree is given by its entries under their absolute paths, and a file system is a tree with the
lookups that fail. `Resolves` says which path a sequence of steps comes to when every symbolic link
on its way is followed, and `realPath` computes it, unless the links loop. A name whose lookup fails
is taken as it is, as is one that does not exist. `stat` is the kernel's own walk, which fails
there.
-/

/-- The number of a system error, with names for the errors that say that nothing is there. -/
inductive Errno where
  | noEntry
  | notDirectory
  | badDescriptor
  | loop
  | other (code : ℕ)
  deriving DecidableEq, Repr

/-- A step of a path. -/
inductive PathStep (ν : Type*) where
  | name (n : ν)
  | up
  deriving DecidableEq, Repr

structure LinkTarget (ν : Type*) where
  absolute : Bool
  steps : List (PathStep ν)
  deriving DecidableEq, Repr

inductive FileKind (ν : Type*) where
  | directory
  | file
  | special
  | link (target : LinkTarget ν)
  deriving DecidableEq, Repr

/-- Where the target of a link in a directory starts. -/
def LinkTarget.base {ν : Type*} (target : LinkTarget ν) (directory : List ν) : List ν :=
  if target.absolute then [] else directory

def FileKind.target? {ν : Type*} : FileKind ν → Option (LinkTarget ν)
  | .link target => some target
  | _            => none

/-- What is at a path. The root is a directory. -/
def FileTree.entryOf {ν : Type*} [DecidableEq ν] (entries : Dict (List ν) (FileKind ν))
    (path : List ν) : Option (FileKind ν) :=
  if path = [] then some .directory else entries.get path

/-- A tree of files: what there is, is in a directory. -/
structure FileTree (ν : Type*) [DecidableEq ν] where
  entries : Dict (List ν) (FileKind ν)
  parents : ∀ path ∈ entries.keys, FileTree.entryOf entries path.dropLast = some .directory

/-- A tree, the lookups that fail with a system error, and the working directory. -/
structure FileSystem (ν : Type*) [DecidableEq ν] where
  tree : FileTree ν
  failure : List ν → Option Errno := fun _ => none
  /-- A lookup meets no link on its way, so it meets no loop. -/
  failure_ne_loop : ∀ path, failure path ≠ some .loop := by simp
  cwd : List ν := []
  cwd_directory : FileTree.entryOf tree.entries cwd = some .directory := by rfl

namespace FileTree

variable {ν : Type*} [DecidableEq ν] {t : FileTree ν} {path p q : List ν} {kind : FileKind ν}

def entry (t : FileTree ν) (path : List ν) : Option (FileKind ν) := entryOf t.entries path

/-- The paths of the symbolic links. -/
def links (t : FileTree ν) : List (List ν) :=
  t.entries.keys.filter fun path => ((t.entry path).bind FileKind.target?).isSome

@[simp] lemma entry_nil (t : FileTree ν) : t.entry [] = some .directory := by
  rw [entry, entryOf, if_pos rfl]

lemma mem_keys (hp : path ≠ []) (hk : t.entry path = some kind) : path ∈ t.entries.keys := by
  rw [entry, entryOf, if_neg hp] at hk
  exact Dict.get_ne_none hk

/-- The parent of what there is, is a directory. -/
lemma entry_dropLast (hk : t.entry path = some kind) :
    t.entry path.dropLast = some .directory := by
  by_cases hp : path = []
  · rw [hp, List.dropLast_nil]
    exact entry_nil t
  · exact t.parents path (mem_keys hp hk)

/-- What is on the way to something is a directory. -/
lemma entry_of_isPrefix (hk : t.entry path = some kind) (hq : q <+: path) (hne : q ≠ path) :
    t.entry q = some .directory := by
  obtain ⟨l, rfl⟩ := hq
  induction l using List.reverseRecOn generalizing kind with
  | nil => exact absurd (List.append_nil q).symm hne
  | append_singleton l n ih =>
    have hdir := entry_dropLast hk
    rw [← List.append_assoc, List.dropLast_concat] at hdir
    by_cases hl : l = []
    · rwa [hl, List.append_nil] at hdir
    · exact ih hdir fun heq => hl (List.append_right_eq_self.mp heq.symm)

lemma mem_links {target : LinkTarget ν} (hk : t.entry path = some (.link target)) :
    path ∈ t.links := by
  rw [links, List.mem_filter, hk]
  refine ⟨mem_keys ?_ hk, rfl⟩
  rintro rfl
  rw [entry_nil] at hk
  cases hk

end FileTree

namespace FileSystem

variable {ν : Type*} [DecidableEq ν] {fs : FileSystem ν} {path p q : List ν} {kind : FileKind ν}
  {steps : List (PathStep ν)} {target : LinkTarget ν} {m : ν} {n k : ℕ}

/-- The first failure on the way to a path. -/
def error? (fs : FileSystem ν) (path : List ν) : Option Errno := path.inits.findSome? fs.failure

/-- `lstat`, on a path without links on its way. -/
def lookup (fs : FileSystem ν) (path : List ν) : Except Errno (FileKind ν) :=
  match fs.error? path with
  | some e => .error e
  | none   =>
    match fs.tree.entry path with
    | some kind => .ok kind
    | none      => .error .noEntry

/-- The target of the link at a path, if that is one and can be read. -/
def link? (fs : FileSystem ν) (path : List ν) : Option (LinkTarget ν) :=
  match fs.lookup path with
  | .ok kind => kind.target?
  | .error _ => none

/-! ### Resolving links -/

/-- `fs.Resolves n path steps p`: with links in links at most `n` deep, the steps lead from `path`
to `p`. -/
inductive Resolves (fs : FileSystem ν) :
    ℕ → List ν → List (PathStep ν) → List ν → Prop where
  | nil (n : ℕ) (path : List ν) : Resolves fs n path [] path
  | up {n : ℕ} {path p : List ν} {steps : List (PathStep ν)}
      (h : Resolves fs n path.dropLast steps p) : Resolves fs n path (.up :: steps) p
  | name {n : ℕ} {path p : List ν} {steps : List (PathStep ν)} {m : ν}
      (hl : fs.link? (path ++ [m]) = none) (h : Resolves fs n (path ++ [m]) steps p) :
      Resolves fs n path (.name m :: steps) p
  | link {n : ℕ} {path p q : List ν} {steps : List (PathStep ν)} {m : ν} {target : LinkTarget ν}
      (hl : fs.link? (path ++ [m]) = some target)
      (ht : Resolves fs n (target.base path) target.steps q)
      (h : Resolves fs (n + 1) q steps p) : Resolves fs (n + 1) path (.name m :: steps) p

/-- The steps are taken one after the other, where `follow` resolves the target of a link. -/
def walk (fs : FileSystem ν)
    (follow : List ν → List ν → List (PathStep ν) → Option (List ν)) :
    List ν → List (PathStep ν) → Option (List ν)
  | path, []               => some path
  | path, .up :: steps     => fs.walk follow path.dropLast steps
  | path, .name m :: steps =>
    match fs.link? (path ++ [m]) with
    | none        => fs.walk follow (path ++ [m]) steps
    | some target =>
      (follow (path ++ [m]) (target.base path) target.steps).bind fun q => fs.walk follow q steps

/-- The links of `seen` are being resolved. One that is met again is in a loop. -/
def joinRealPath (fs : FileSystem ν) :
    ℕ → List (List ν) → List ν → List (PathStep ν) → Option (List ν)
  | 0, _        => fs.walk fun _ _ _ => none
  | n + 1, seen =>
    fs.walk fun path base steps =>
      if path ∈ seen then none else fs.joinRealPath n (path :: seen) base steps

/-- The path that the steps lead to, unless there is a loop of links on the way. -/
def realPath (fs : FileSystem ν) (path : List ν) (steps : List (PathStep ν)) : Option (List ν) :=
  fs.joinRealPath fs.tree.links.length [] path steps

lemma lookup_of_link? (hl : fs.link? path = some target) :
    fs.tree.entry path = some (.link target) := by
  rw [link?] at hl
  split at hl
  · next kind hk =>
    rw [lookup] at hk
    split at hk
    · cases hk
    · split at hk
      · next hentry =>
        cases hk
        rw [hentry]
        cases kind with
        | link target' =>
          cases hl
          rfl
        | _ => cases hl
      · cases hk
  · cases hl

lemma Resolves.mono (h : fs.Resolves n path steps p) (hnk : n ≤ k) :
    fs.Resolves k path steps p := by
  induction h generalizing k with
  | nil => exact .nil _ _
  | up _ ih => exact .up (ih hnk)
  | name hl _ ih => exact .name hl (ih hnk)
  | link hl _ _ iht ih =>
    obtain ⟨k, rfl⟩ := Nat.exists_eq_succ_of_ne_zero (Nat.ne_zero_of_lt hnk)
    exact .link hl (iht (Nat.le_of_succ_le_succ hnk)) (ih hnk)

/-- Steps lead to one path at most. -/
lemma Resolves.unique (h : fs.Resolves n path steps p) (h' : fs.Resolves k path steps q) :
    p = q := by
  induction h generalizing k q with
  | nil =>
    cases h'
    rfl
  | up _ ih =>
    cases h' with
    | up h' => exact ih h'
  | name hl _ ih =>
    cases h' with
    | name _ h' => exact ih h'
    | link hl' _ _ =>
      rw [hl] at hl'
      cases hl'
  | link hl _ _ iht ih =>
    cases h' with
    | name hl' _ =>
      rw [hl] at hl'
      cases hl'
    | link hl' ht' h' =>
      rw [hl] at hl'
      cases hl'
      obtain rfl := iht ht'
      exact ih h'

lemma Resolves.of_walk {follow : List ν → List ν → List (PathStep ν) → Option (List ν)}
    (hf : ∀ link base steps q, follow link base steps = some q →
      ∃ k, n = k + 1 ∧ fs.Resolves k base steps q)
    (h : fs.walk follow path steps = some p) : fs.Resolves n path steps p := by
  induction steps generalizing path with
  | nil =>
    cases h
    exact .nil _ _
  | cons step steps ih =>
    cases step with
    | up => exact .up (ih h)
    | name m =>
      rw [walk] at h
      split at h
      · next hl => exact .name hl (ih h)
      · next target hl =>
        obtain ⟨q, hq, h⟩ := Option.bind_eq_some_iff.mp h
        obtain ⟨k, rfl, ht⟩ := hf _ _ _ _ hq
        exact .link hl ht (ih h)

lemma Resolves.of_joinRealPath {seen : List (List ν)}
    (h : fs.joinRealPath n seen path steps = some p) : fs.Resolves n path steps p := by
  induction n generalizing seen path steps p with
  | zero =>
    refine .of_walk ?_ h
    intro _ _ _ _ hf
    cases hf
  | succ n ih =>
    refine .of_walk ?_ h
    intro link base steps q hf
    split at hf
    · cases hf
    · exact ⟨n, rfl, ih hf⟩

/-- The target of a link is resolved, with links in it at most `n` deep. -/
def LinkResolves (fs : FileSystem ν) (n : ℕ) (link : List ν) : Prop :=
  ∃ target q, fs.link? link = some target ∧
    fs.Resolves n (target.base link.dropLast) target.steps q

lemma Resolves.linkResolves {directory : List ν}
    (h : fs.Resolves n (target.base directory) target.steps q)
    (hl : fs.link? (directory ++ [m]) = some target) : fs.LinkResolves n (directory ++ [m]) := by
  refine ⟨target, q, hl, ?_⟩
  rw [List.dropLast_concat]
  exact h

lemma Resolves.walk {follow : List ν → List ν → List (PathStep ν) → Option (List ν)}
    (hf : ∀ directory m target k q, fs.link? (directory ++ [m]) = some target → k < n →
      fs.Resolves k (target.base directory) target.steps q →
      follow (directory ++ [m]) (target.base directory) target.steps = some q)
    (h : fs.Resolves n path steps p) : fs.walk follow path steps = some p := by
  induction h with
  | nil => rfl
  | up _ ih => exact ih hf
  | name hl _ ih =>
    rw [FileSystem.walk, hl]
    exact ih hf
  | link hl ht _ _ ih =>
    rw [FileSystem.walk, hl]
    apply Option.bind_eq_some_iff.mpr
    exact ⟨_, hf _ _ _ _ _ hl (Nat.lt_succ_self _) ht, ih hf⟩

/-- What the steps lead to is found, if every link that is being resolved is deeper than they
are. -/
lemma Resolves.joinRealPath (h : fs.Resolves n path steps p) {seen : List (List ν)}
    (hlinks : seen ⊆ fs.tree.links) (hnodup : seen.Nodup)
    (hk : fs.tree.links.length ≤ k + seen.length)
    (hseen : ∀ link ∈ seen, ∀ i < n, ¬ fs.LinkResolves i link) :
    fs.joinRealPath k seen path steps = some p := by
  induction n using Nat.strong_induction_on generalizing k seen path steps p with
  | _ n ih =>
    -- a link on the way is not being resolved, so there is fuel for it
    have hnew : ∀ directory m target i q, fs.link? (directory ++ [m]) = some target → i < n →
        fs.Resolves i (target.base directory) target.steps q →
        (directory ++ [m]) ∉ seen ∧ seen.length < fs.tree.links.length := by
      intro directory m target i q hl hi ht
      have hnot : (directory ++ [m]) ∉ seen := by
        intro hmem
        exact hseen _ hmem i hi (ht.linkResolves hl)
      refine ⟨hnot, ?_⟩
      have hle : ((directory ++ [m]) :: seen).length ≤ fs.tree.links.length := by
        apply List.Nodup.length_le_of_subset (List.nodup_cons.mpr ⟨hnot, hnodup⟩)
        exact List.cons_subset.mpr ⟨FileTree.mem_links (lookup_of_link? hl), hlinks⟩
      exact hle
    cases k with
    | zero =>
      refine h.walk ?_
      intro directory m target i q hl hi ht
      have hlt := (hnew directory m target i q hl hi ht).2
      omega
    | succ k =>
      refine h.walk ?_
      intro directory m target i q hl hi ht
      obtain ⟨hnot, hlt⟩ := hnew directory m target i q hl hi ht
      rw [if_neg hnot]
      classical
      have hex : ∃ j, fs.LinkResolves j (directory ++ [m]) := ⟨i, ht.linkResolves hl⟩
      -- the least depth at which the link is resolved
      obtain ⟨target', q', hl', ht'⟩ := Nat.find_spec hex
      rw [hl] at hl'
      cases hl'
      rw [List.dropLast_concat] at ht'
      obtain rfl := ht.unique ht'
      have hle : Nat.find hex < n := (Nat.find_min' hex (ht.linkResolves hl)).trans_lt hi
      apply ih _ hle ht'
      · exact List.cons_subset.mpr ⟨FileTree.mem_links (lookup_of_link? hl), hlinks⟩
      · exact List.nodup_cons.mpr ⟨hnot, hnodup⟩
      · rw [List.length_cons]
        omega
      · intro link hmem j hj
        rcases List.mem_cons.mp hmem with rfl | hmem
        · exact Nat.find_min hex hj
        · exact hseen link hmem j (hj.trans hle)

/-- `realPath` finds what the steps lead to, and fails if their links loop. -/
theorem realPath_eq_some_iff :
    fs.realPath path steps = some p ↔ ∃ n, fs.Resolves n path steps p := by
  constructor
  · intro h
    exact ⟨_, .of_joinRealPath h⟩
  · rintro ⟨n, h⟩
    apply h.joinRealPath (List.nil_subset _) List.nodup_nil
    · exact le_rfl
    · intro link hmem
      cases hmem

/-! ### Paths without links -/

/-- No link is on the way to the path or at it, as far as the lookups answer. -/
def Plain (fs : FileSystem ν) (path : List ν) : Prop := ∀ q, q <+: path → fs.link? q = none

lemma Plain.of_isPrefix (hp : fs.Plain path) (hq : q <+: path) : fs.Plain q :=
  fun _ h => hp _ (h.trans hq)

lemma Plain.append_name (hp : fs.Plain path) (hl : fs.link? (path ++ [m]) = none) :
    fs.Plain (path ++ [m]) := by
  intro q hq
  rcases List.prefix_concat_iff.mp hq with rfl | hq
  · exact hl
  · exact hp q hq

/-- What is not a link in the tree is plain. -/
lemma plain_of_entry (hk : fs.tree.entry path = some kind) (hkind : kind.target? = none) :
    fs.Plain path := by
  intro q hq
  rw [Option.eq_none_iff_forall_ne_some]
  intro target hl
  have hlink := lookup_of_link? hl
  by_cases hne : q = path
  · rw [hne, hk] at hlink
    cases hlink
    cases hkind
  · rw [FileTree.entry_of_isPrefix hk hq hne] at hlink
    cases hlink

lemma plain_nil (fs : FileSystem ν) : fs.Plain [] := plain_of_entry (FileTree.entry_nil _) rfl

lemma plain_cwd (fs : FileSystem ν) : fs.Plain fs.cwd := plain_of_entry fs.cwd_directory rfl

/-- Steps lead from a path without links to one without links. -/
lemma Resolves.plain (h : fs.Resolves n path steps p) (hp : fs.Plain path) : fs.Plain p := by
  induction h with
  | nil => exact hp
  | up _ ih => exact ih (hp.of_isPrefix (List.dropLast_prefix _))
  | name hl _ ih => exact ih (hp.append_name hl)
  | @link n path p q steps m target hl _ _ iht ih =>
    have hbase : fs.Plain (target.base path) := by
      rw [LinkTarget.base]
      split
      · exact plain_nil fs
      · exact hp
    exact ih (iht hbase)

/-- The names of a path without links lead to it. -/
lemma resolves_names_iff {l : List ν} (hp : fs.Plain (path ++ l)) :
    fs.Resolves n path (l.map .name ++ steps) p ↔ fs.Resolves n (path ++ l) steps p := by
  induction l generalizing path with
  | nil => rw [List.map_nil, List.nil_append, List.append_nil]
  | cons m l ih =>
    rw [List.append_cons] at hp ⊢
    have hl : fs.link? (path ++ [m]) = none := hp _ (List.prefix_append _ _)
    rw [← ih hp]
    constructor
    · intro h
      cases h with
      | name _ h => exact h
      | link hl' _ _ =>
        rw [hl] at hl'
        cases hl'
    · exact .name hl

/-! ### The kernel's walk -/

/-- The kernel takes a step in a directory only, and `follow` goes on after a link. -/
def nameiWalk (fs : FileSystem ν)
    (follow : List ν → List (PathStep ν) → Except Errno (List ν)) :
    List ν → List (PathStep ν) → Except Errno (List ν)
  | path, []            => .ok path
  | path, step :: steps =>
    if fs.tree.entry path = some .directory then
      match step with
      | .up     => fs.nameiWalk follow path.dropLast steps
      | .name m =>
        match fs.lookup (path ++ [m]) with
        | .error e            => .error e
        | .ok (.link target)  => follow (target.base path) (target.steps ++ steps)
        | .ok _               => fs.nameiWalk follow (path ++ [m]) steps
    else .error .notDirectory

/-- What a walk fails with on its own. -/
def walkErrors : List Errno := [.noEntry, .notDirectory, .loop]

/-- The walk with a limit on the links that are followed. -/
def namei (fs : FileSystem ν) : ℕ → List ν → List (PathStep ν) → Except Errno (List ν)
  | 0     => fs.nameiWalk fun _ _ => .error .loop
  | n + 1 => fs.nameiWalk (fs.namei n)

/-- The links that the kernel follows in one walk. -/
def maxLinks : ℕ := 40

/-- `stat`: what is at a path, after the links. -/
def stat (fs : FileSystem ν) (path : List ν) : Except Errno (FileKind ν) :=
  (fs.namei maxLinks [] (path.map .name)).bind fs.lookup

lemma entry_of_lookup (h : fs.lookup path = .ok kind) : fs.tree.entry path = some kind := by
  rw [lookup] at h
  split at h
  · cases h
  · split at h
    · next hk =>
      cases h
      exact hk
    · cases h

lemma lookup_of_entry (hf : fs.error? path = none) (hk : fs.tree.entry path = some kind) :
    fs.lookup path = .ok kind := by
  rw [lookup, hf, hk]

lemma error?_of_isPrefix (hf : fs.error? path = none) (hq : q <+: path) : fs.error? q = none := by
  rw [error?, List.findSome?_eq_none_iff] at hf ⊢
  intro x hx
  rw [List.mem_inits] at hx
  exact hf x ((List.mem_inits _ _).mpr (hx.trans hq))

lemma error?_of_failure (hf : ∀ p, fs.failure p = none) : fs.error? path = none := by
  rw [error?, List.findSome?_eq_none_iff]
  exact fun p _ => hf p

lemma error_of_lookup (hf : ∀ p, fs.failure p = none) {e : Errno}
    (h : fs.lookup path = .error e) : e ∈ walkErrors := by
  rw [lookup, error?_of_failure hf] at h
  dsimp only at h
  split at h
  · cases h
  · cases h
    exact List.mem_cons_self

lemma lookup_ne_loop (fs : FileSystem ν) (path : List ν) : fs.lookup path ≠ .error .loop := by
  intro h
  rw [lookup] at h
  split at h
  · next hf =>
    cases h
    obtain ⟨q, -, hq⟩ := List.exists_of_findSome?_eq_some hf
    exact fs.failure_ne_loop q hq
  · split at h <;> cases h

lemma link?_of_lookup (h : fs.lookup path = .ok kind) : fs.link? path = kind.target? := by
  rw [link?, h]

section Walk

variable {follow : List ν → List (PathStep ν) → Except Errno (List ν)} {l : List ν}

/-- Without a link on the way the walk comes to the path itself. -/
lemma eq_of_nameiWalk (hp : fs.Plain (path ++ l))
    (h : fs.nameiWalk follow path (l.map .name) = .ok q) : q = path ++ l := by
  induction l generalizing path with
  | nil =>
    cases h
    exact (List.append_nil _).symm
  | cons m l ih =>
    rw [List.append_cons] at hp ⊢
    rw [List.map_cons, nameiWalk] at h
    split at h
    · split at h
      · cases h
      · next target hlink =>
        have hl := hp _ (List.prefix_append _ _)
        rw [link?_of_lookup hlink] at hl
        cases hl
      · exact ih hp h
    · cases h

/-- Without a link on the way the walk does not fail for a loop. -/
lemma nameiWalk_ne_loop (hp : fs.Plain (path ++ l)) :
    fs.nameiWalk follow path (l.map .name) ≠ .error .loop := by
  induction l generalizing path with
  | nil =>
    intro h
    cases h
  | cons m l ih =>
    rw [List.append_cons] at hp
    rw [List.map_cons, nameiWalk]
    split
    · split
      · next e he =>
        intro h
        cases h
        exact fs.lookup_ne_loop _ he
      · next target hlink =>
        have hl := hp _ (List.prefix_append _ _)
        rw [link?_of_lookup hlink] at hl
        cases hl
      · exact ih hp
    · intro h
      cases h

/-- The walk comes to a path of the tree on which no lookup fails. -/
lemma nameiWalk_of_entry (hf : fs.error? (path ++ l) = none)
    (hk : fs.tree.entry (path ++ l) = some kind) (hkind : kind.target? = none) :
    fs.nameiWalk follow path (l.map .name) = .ok (path ++ l) := by
  induction l generalizing path with
  | nil => rw [List.map_nil, nameiWalk, List.append_nil]
  | cons m l ih =>
    have hdir : fs.tree.entry path = some .directory := by
      apply FileTree.entry_of_isPrefix hk (List.prefix_append _ _)
      simp
    rw [List.map_cons, nameiWalk, if_pos hdir]
    rw [List.append_cons] at hf hk
    rw [List.append_cons path m l]
    obtain ⟨kind', hlookup, hkind'⟩ : ∃ kind', fs.lookup (path ++ [m]) = .ok kind' ∧
        kind'.target? = none := by
      by_cases hl : l = []
      · rw [hl, List.append_nil] at hf hk
        exact ⟨kind, lookup_of_entry hf hk, hkind⟩
      · have hm : fs.error? (path ++ [m]) = none :=
          error?_of_isPrefix hf (List.prefix_append _ _)
        refine ⟨.directory, lookup_of_entry hm ?_, rfl⟩
        apply FileTree.entry_of_isPrefix hk (List.prefix_append _ _)
        exact fun heq => hl (List.append_right_eq_self.mp heq.symm)
    rw [hlookup]
    cases kind' with
    | link target => cases hkind'
    | directory | file | special => exact ih hf hk

/-- On a file system without failures a walk finds nothing, or something that is no directory, or
too many links. -/
lemma error_of_nameiWalk (hf : ∀ p, fs.failure p = none)
    (hfollow : ∀ path steps e, follow path steps = .error e → e ∈ walkErrors) {e : Errno}
    (h : fs.nameiWalk follow path steps = .error e) : e ∈ walkErrors := by
  induction steps generalizing path with
  | nil => cases h
  | cons step steps ih =>
    cases step with
    | up =>
      rw [nameiWalk] at h
      split at h
      · exact ih h
      · cases h
        decide
    | name m =>
      rw [nameiWalk] at h
      split at h
      · split at h
        · next hlookup =>
          cases h
          exact error_of_lookup hf hlookup
        · exact hfollow _ _ _ h
        · exact ih h
      · cases h
        decide

end Walk

/-- What `stat` finds at a path without links is there. -/
lemma entry_of_stat (hp : fs.Plain path) (h : fs.stat path = .ok kind) :
    fs.tree.entry path = some kind := by
  rw [stat] at h
  cases hn : fs.namei maxLinks [] (path.map .name) with
  | error e =>
    rw [hn] at h
    cases h
  | ok q =>
    rw [hn] at h
    obtain rfl : q = path := eq_of_nameiWalk hp hn
    exact entry_of_lookup h

/-- `stat` of a path without links finds no loop. -/
lemma stat_ne_loop (hp : fs.Plain path) : fs.stat path ≠ .error .loop := by
  intro h
  rw [stat] at h
  cases hn : fs.namei maxLinks [] (path.map .name) with
  | error e =>
    rw [hn] at h
    cases h
    exact nameiWalk_ne_loop hp hn
  | ok q =>
    rw [hn] at h
    exact fs.lookup_ne_loop q h

/-- `stat` finds what is there, if no lookup fails on the way. -/
lemma stat_of_entry (hf : fs.error? path = none) (hk : fs.tree.entry path = some kind)
    (hkind : kind.target? = none) : fs.stat path = .ok kind := by
  have hn : fs.namei maxLinks [] (path.map .name) = .ok path := nameiWalk_of_entry hf hk hkind
  rw [stat, hn]
  exact lookup_of_entry hf hk

/-- On a file system without failures `stat` says that nothing is there, or answers. -/
lemma error_of_stat (hf : ∀ p, fs.failure p = none) {e : Errno} (h : fs.stat path = .error e) :
    e ∈ walkErrors := by
  have hnamei : ∀ n path steps e, fs.namei n path steps = .error e → e ∈ walkErrors := by
    intro n
    induction n with
    | zero =>
      intro path steps e h
      refine error_of_nameiWalk hf ?_ h
      intro _ _ _ hloop
      cases hloop
      decide
    | succ n ih =>
      intro path steps e h
      exact error_of_nameiWalk hf ih h
  rw [stat] at h
  cases hn : fs.namei maxLinks [] (path.map .name) with
  | error e' =>
    rw [hn] at h
    cases h
    exact hnamei _ _ _ _ hn
  | ok q =>
    rw [hn] at h
    exact error_of_lookup hf h

/-! ### What a walk depends on -/

section Agree

variable {fs' : FileSystem ν} {l : List ν} {follow follow' : List ν → List (PathStep ν) →
  Except Errno (List ν)}

/-- Only the links on the way matter to where steps lead. -/
lemma Resolves.congr (hlinks : ∀ q, fs.link? q = fs'.link? q) (h : fs.Resolves n path steps p) :
    fs'.Resolves n path steps p := by
  induction h with
  | nil n path => exact .nil n path
  | up _ ih => exact .up ih
  | name hl _ ih => exact .name (hlinks _ ▸ hl) ih
  | link hl _ _ iht ih => exact .link (hlinks _ ▸ hl) iht ih

end Agree

end FileSystem
