import Mathlib.Data.Bool.Basic
import Mathlib.Data.List.Basic
import VideoPipeline.Lib.FileTree

/-!
# Resolving and containing the caller-supplied path

`resolve_video_path` of `video_analyzer/domain/paths.py`, with what it uses of `pathlib`. Its guard
is around the two calls of `resolve` and not around `exists` and `is_file`, which swallow four
system errors only: a name that is too long, or a directory that may not be searched, makes one of
them raise. And it trusts what `resolve` answers, which after a loop of links may be a link itself.
-/

namespace VideoPipeline

/-- The string can be a name in a directory. -/
structure IsFileName (s : String) : Prop where
  ne_empty : s ≠ ""
  ne_dot : s ≠ "."
  ne_dotDot : s ≠ ".."
  noSlash : '/' ∉ s.toList
  noNull : '\x00' ∉ s.toList

instance (s : String) : Decidable (IsFileName s) :=
  decidable_of_iff (s ≠ "" ∧ s ≠ "." ∧ s ≠ ".." ∧ '/' ∉ s.toList ∧ '\x00' ∉ s.toList)
    ⟨fun ⟨h₁, h₂, h₃, h₄, h₅⟩ => ⟨h₁, h₂, h₃, h₄, h₅⟩,
      fun ⟨h₁, h₂, h₃, h₄, h₅⟩ => ⟨h₁, h₂, h₃, h₄, h₅⟩⟩

/-- A name in a directory. -/
abbrev FileName := {s : String // IsFileName s}

/-- A `Path`. Its `root` is empty, one slash or two, and `tail` has no empty part and no dot. -/
structure PurePath where
  root : String
  tail : List String
  deriving DecidableEq, Repr

namespace PurePath

/-- `posixpath.splitroot`. -/
def splitRoot : List Char → String × List Char
  | '/' :: '/' :: '/' :: s => ("/", '/' :: '/' :: s)
  | '/' :: '/' :: s        => ("//", s)
  | '/' :: s               => ("/", s)
  | s                      => ("", s)

def ofString (s : String) : PurePath :=
  let (root, rel) := splitRoot s.toList
  ⟨root, ((rel.splitOn '/').map String.ofList).filter fun part => part ≠ "" ∧ part ≠ "."⟩

def isAbsolute (p : PurePath) : Bool := p.root ≠ ""

/-- `str` of a path. -/
def str (p : PurePath) : String :=
  if p.root = "" ∧ p.tail = [] then "." else p.root ++ "/".intercalate p.tail

/-- `p / q`. -/
def join (p q : PurePath) : PurePath :=
  if q.isAbsolute then q else { p with tail := p.tail ++ q.tail }

/-- A part that a system call takes. It takes no null byte. -/
def step? (part : String) : Option (PathStep FileName) :=
  if part = ".." then some .up
  else if h : IsFileName part then some (.name ⟨part, h⟩)
  else none

def steps? (p : PurePath) : Option (List (PathStep FileName)) := p.tail.mapM step?

/-- The path of an entry of the file system. -/
def ofEntry (path : List FileName) : PurePath := ⟨"/", path.map Subtype.val⟩

/-- The path of an entry relative to a directory over it. -/
def relative (path : List FileName) : PurePath := ⟨"", path.map Subtype.val⟩

end PurePath

/-- What a system call raises. -/
inductive SystemError where
  | osError (e : Errno)
  | valueError
  deriving DecidableEq, Repr

/-- What `resolve_video_path` and the calls in it raise. -/
inductive Raised where
  | system (e : SystemError)
  | runtimeError
  | pathValidation (message : String)
  | videoNotFound (message : String)
  deriving DecidableEq, Repr

/-- `PathValidationError` and `VideoNotFoundError`. -/
def Raised.isPathError : Raised → Bool
  | .pathValidation _ | .videoNotFound _ => true
  | _ => false

/-- The calls of `resolve_video_path` to the system. -/
inductive SystemCall where
  | resolveRoot
  | resolveRequest
  | exists
  | isFile
  deriving DecidableEq, Repr

/-- A file system whose calls may also raise out of the blue. For a loop of links `pathlib`
documents a `RuntimeError`, and CPython 3.12 answers some with the rest of the path taken as it is
written: `looped` is what a call of `resolve` answers there, if it does. -/
structure Os extends FileSystem FileName where
  raises : SystemCall → Option SystemError := fun _ => none
  looped : SystemCall → Option (List FileName) := fun _ => none

/-- The white space of `str.strip`. -/
def isSpace (c : Char) : Bool :=
  let n := c.toNat
  (0x09 ≤ n ∧ n ≤ 0x0d) ∨ (0x1c ≤ n ∧ n ≤ 0x20) ∨ n = 0x85 ∨ n = 0xa0 ∨ n = 0x1680 ∨
    (0x2000 ≤ n ∧ n ≤ 0x200a) ∨ n = 0x2028 ∨ n = 0x2029 ∨ n = 0x202f ∨ n = 0x205f ∨ n = 0x3000

/-- Nothing is left of the string by `strip`. -/
def isBlank (s : String) : Bool := s.toList.all isSpace

/-- The parents of a path, the nearest first. -/
def parents (path : List FileName) : List (List FileName) :=
  (List.range path.length).map fun i => path.take (path.length - (i + 1))

def isRelativeTo (path other : List FileName) : Bool := other = path ∨ other ∈ parents path

def maxPathLength : ℕ := 4096

/-- `exists` and `is_file` take it for an answer: nothing is there. -/
def SystemError.isIgnored : SystemError → Bool
  | .osError e  => e ∈ [.noEntry, .notDirectory, .badDescriptor, .loop]
  | .valueError => true

namespace Os

/-- `Path.resolve`. The `stat` at its end is there for the loops, and no other error of it is
raised. -/
def resolve (os : Os) (call : SystemCall) (p : PurePath) : Except Raised (List FileName) :=
  match os.raises call with
  | some e => .error (.system e)
  | none   =>
    match p.steps? with
    | none       => .error (.system .valueError)
    | some steps =>
      match os.realPath (if p.isAbsolute then [] else os.cwd) steps with
      | some path =>
        if os.toFileSystem.stat path = .error .loop then .error .runtimeError else .ok path
      | none      =>
        match os.looped call with
        | some path => .ok path
        | none      => .error .runtimeError

/-- `Path.stat` in a call. -/
def stat (os : Os) (call : SystemCall) (path : List FileName) :
    Except SystemError (FileKind FileName) :=
  match os.raises call with
  | some e => .error e
  | none   =>
    match os.toFileSystem.stat path with
    | .ok kind => .ok kind
    | .error e => .error (.osError e)

/-- `exists` and `is_file`: a test of what `stat` finds. -/
def probe (os : Os) (call : SystemCall) (test : FileKind FileName → Bool)
    (path : List FileName) : Except Raised Bool :=
  match os.stat call path with
  | .ok kind => .ok (test kind)
  | .error e => if e.isIgnored then .ok false else .error (.system e)

/-- `Path.exists`. -/
def pathExists (os : Os) (path : List FileName) : Except Raised Bool :=
  os.probe .exists (fun _ => true) path

/-- `Path.is_file`. -/
def isFile (os : Os) (path : List FileName) : Except Raised Bool :=
  os.probe .isFile (· = .file) path

/-- The two resolutions inside the guard. -/
def resolveUnder (os : Os) (candidate videoRoot : PurePath) :
    Except Raised (List FileName × List FileName) :=
  match os.resolve .resolveRoot videoRoot with
  | .error e => .error e
  | .ok root =>
    match os.resolve .resolveRequest
      (if candidate.isAbsolute then candidate else (PurePath.ofEntry root).join candidate) with
    | .error e     => .error e
    | .ok resolved => .ok (root, resolved)

/-- The tests after the guard. -/
def checkFile (os : Os) (candidate : PurePath) (resolved : List FileName) :
    Except Raised (List FileName) :=
  match os.pathExists resolved with
  | .error e   => .error e
  | .ok false  => .error (.videoNotFound candidate.str)
  | .ok true   =>
    match os.isFile resolved with
    | .error e  => .error e
    | .ok false => .error (.pathValidation "file_path does not point at a regular file")
    | .ok true  => .ok resolved

def resolveVideoPath (os : Os) (rawPath : String) (videoRoot : PurePath) :
    Except Raised (List FileName) :=
  if isBlank rawPath then .error (.pathValidation "file_path must not be empty")
  else if '\x00' ∈ rawPath.toList then
    .error (.pathValidation "file_path must not contain null bytes")
  else if maxPathLength < rawPath.length then
    .error (.pathValidation s!"file_path exceeds {maxPathLength} characters")
  else
    match os.resolveUnder (.ofString rawPath) videoRoot with
    -- the guard catches whatever `resolve` raises
    | .error _ => .error (.pathValidation "file_path could not be resolved")
    | .ok (root, resolved) =>
      if isRelativeTo resolved root then os.checkFile (.ofString rawPath) resolved
      else .error (.pathValidation "file_path resolves outside the permitted video directory")

end Os

/-! ### Paths and their parts -/

/-- Letters other than the three that a name may not be made of make a name. -/
lemma isFileName_replicate {c : Char} (n : ℕ) (hslash : c ≠ '/') (hnull : c ≠ '\x00')
    (hdot : c ≠ '.') : IsFileName (String.ofList (List.replicate (n + 1) c)) := by
  have hne : ∀ s : String, s.toList.head? ≠ some c →
      String.ofList (List.replicate (n + 1) c) ≠ s := by
    rintro s hs rfl
    rw [String.toList_ofList] at hs
    exact hs rfl
  refine ⟨hne _ ?_, hne _ ?_, hne _ ?_, ?_, ?_⟩
  · simp
  · simpa using hdot.symm
  · simpa using hdot.symm
  · rw [String.toList_ofList]
    exact fun h => hslash (List.eq_of_mem_replicate h).symm
  · rw [String.toList_ofList]
    exact fun h => hnull (List.eq_of_mem_replicate h).symm

lemma isBlank_replicate {c : Char} (n : ℕ) (hc : isSpace c = false) :
    isBlank (String.ofList (List.replicate (n + 1) c)) = false := by
  rw [isBlank, String.toList_ofList, List.replicate_succ, List.all_cons, hc, Bool.false_and]

lemma isRelativeTo_iff {path other : List FileName} :
    isRelativeTo path other = true ↔ other <+: path := by
  rw [isRelativeTo, decide_eq_true_eq, parents, List.mem_map]
  constructor
  · rintro (rfl | ⟨i, -, rfl⟩)
    · exact List.prefix_refl _
    · exact List.take_prefix _ _
  · intro hp
    have htake := List.prefix_iff_eq_take.mp hp
    rcases hp.length_le.eq_or_lt with heq | hlt
    · left
      rw [htake, heq, List.take_length]
    · right
      refine ⟨path.length - (other.length + 1), ?_, ?_⟩
      · rw [List.mem_range]
        omega
      · rw [htake, List.length_take]
        congr 1
        omega

namespace PurePath

variable {path root : List FileName} {p : PurePath}

@[simp] lemma step?_name (m : FileName) : step? m.1 = some (.name m) := by
  rw [step?, if_neg m.2.ne_dotDot, dif_pos m.2]

lemma mapM_step?_names (path : List FileName) :
    (path.map Subtype.val).mapM step? = some (path.map .name) := by
  induction path with
  | nil => rfl
  | cons m path ih =>
    rw [List.map_cons, List.mapM_cons, step?_name, ih]
    rfl

@[simp] lemma steps?_relative (path : List FileName) :
    (relative path).steps? = some (path.map .name) := mapM_step?_names path

/-- The parts of a joined path. -/
lemma steps?_join (hp : p.isAbsolute = false) :
    ((ofEntry root).join p).steps? = p.steps?.map (root.map .name ++ ·) := by
  rw [join, if_neg (by rw [hp]; exact Bool.false_ne_true), steps?, steps?]
  show ((root.map Subtype.val) ++ p.tail).mapM step? = _
  rw [List.mapM_append, mapM_step?_names]
  cases p.tail.mapM step? <;> rfl

lemma isAbsolute_join (hp : p.isAbsolute = false) :
    ((ofEntry root).join p).isAbsolute = true := by
  rw [join, if_neg (by rw [hp]; exact Bool.false_ne_true)]
  rfl

lemma ite_join : (if p.isAbsolute then p else (ofEntry root).join p) = (ofEntry root).join p := by
  rw [join]
  split <;> rfl

lemma splitRoot_of_head? {s : List Char} (hs : s.head? ≠ some '/') : splitRoot s = ("", s) := by
  cases s with
  | nil => rfl
  | cons c s =>
    have hc : c ≠ '/' := fun heq => hs (congrArg some heq)
    unfold splitRoot
    split <;> simp_all

lemma toList_str_relative (m : FileName) (path : List FileName) :
    (relative (m :: path)).str.toList =
      ['/'].intercalate ((m :: path).map fun m => m.1.toList) := by
  rw [str, if_neg (by simp [relative])]
  simp [relative, String.toList_intercalate]

lemma str_relative_singleton (m : FileName) : (relative [m]).str = m.1 := by
  apply String.toList_injective
  rw [toList_str_relative, List.map_singleton, List.intercalate_singleton]

/-- A joined string starts as its first part does. -/
lemma head?_intercalate {c : Char} {part : List Char} (parts : List (List Char))
    (hp : part ≠ []) : ([c].intercalate (part :: parts)).head? = part.head? := by
  cases parts with
  | nil => rw [List.intercalate_singleton]
  | cons part' parts =>
    rw [List.intercalate_cons_cons, List.append_assoc, List.head?_append_of_ne_nil _ hp]

/-- The string of a path gives the path back. -/
lemma ofString_str_relative (path : List FileName) :
    ofString (relative path).str = relative path := by
  cases path with
  | nil => decide +kernel
  | cons m path =>
    have hslash : ∀ part ∈ (m :: path).map fun m => m.1.toList, '/' ∉ part := by
      intro part hpart
      obtain ⟨m', -, rfl⟩ := List.mem_map.mp hpart
      exact m'.2.noSlash
    have hhead : (['/'].intercalate ((m :: path).map fun m => m.1.toList)).head? ≠ some '/' := by
      have hm : m.1.toList ≠ [] := fun hnil => m.2.ne_empty (String.toList_eq_nil_iff.mp hnil)
      rw [List.map_cons, head?_intercalate _ hm]
      intro hhead
      exact m.2.noSlash (List.mem_of_head? hhead)
    have hsplit : (['/'].intercalate ((m :: path).map fun m => m.1.toList)).splitOn '/' =
        (m :: path).map fun m => m.1.toList :=
      List.splitOn_intercalate '/' hslash (by simp)
    have hparts : ((m :: path).map fun m => m.1.toList).map String.ofList =
        (m :: path).map Subtype.val := by
      simp
    rw [ofString, toList_str_relative, splitRoot_of_head? hhead]
    dsimp only
    rw [hsplit, hparts, relative, List.filter_eq_self.mpr]
    intro part hpart
    obtain ⟨m', -, rfl⟩ := List.mem_map.mp hpart
    exact decide_eq_true ⟨m'.2.ne_empty, m'.2.ne_dot⟩

lemma noNull_str_relative (path : List FileName) : '\x00' ∉ (relative path).str.toList := by
  cases path with
  | nil => decide +kernel
  | cons m path =>
    rw [toList_str_relative]
    induction path generalizing m with
    | nil =>
      rw [List.map_singleton, List.intercalate_singleton]
      exact m.2.noNull
    | cons m' path ih =>
      rw [List.map_cons, List.map_cons, List.intercalate_cons_cons, List.mem_append,
        List.mem_append, ← List.map_cons (f := fun m : FileName => m.1.toList)]
      rintro ((hm | hsep) | hrest)
      · exact m.2.noNull hm
      · revert hsep
        decide
      · exact ih m' hrest

end PurePath

namespace Os

variable {os : Os} {rawPath : String} {videoRoot p : PurePath} {path root base : List FileName}
  {call : SystemCall}

/-! ### What a request means -/

/-- The path comes to an entry when every link on its way is followed, relative to `base` if it is
not absolute. What cannot be looked up is taken as it is. -/
def Resolution (os : Os) (base : List FileName) (p : PurePath) (path : List FileName) : Prop :=
  ∃ steps n, p.steps? = some steps ∧
    os.Resolves n (if p.isAbsolute then [] else base) steps path

/-- The way of the path goes into a loop of links. -/
def Loops (os : Os) (base : List FileName) (p : PurePath) : Prop :=
  p.steps?.isSome ∧ ∀ path, ¬os.Resolution base p path

/-- The call answers with the path: with the one that the links lead to, or after a loop of them. -/
def ResolvesTo (os : Os) (call : SystemCall) (base : List FileName) (p : PurePath)
    (path : List FileName) : Prop :=
  os.raises call = none ∧
    (os.Resolution base p path ∨ os.Loops base p ∧ os.looped call = some path)

/-- The request means the path, relative to what the root means, and the path lies under that. -/
def Contained (os : Os) (rawPath : String) (videoRoot : PurePath) (path : List FileName) : Prop :=
  ∃ root, os.Resolution os.cwd videoRoot root ∧ os.Resolution root (.ofString rawPath) path ∧
    root <+: path

/-- The entry that a request comes to: under the video root, without a link on its way, and a
regular file. -/
structure IsVideo (os : Os) (rawPath : String) (videoRoot : PurePath) (path : List FileName) :
    Prop where
  contained : os.Contained rawPath videoRoot path
  file : os.tree.entry path = some .file
  noLink : ∀ q, q <+: path → ∀ target, os.tree.entry q ≠ some (.link target)

/-- A loop of links is on the way of the root, or on that of the request under it. -/
def MeetsLoop (os : Os) (rawPath : String) (videoRoot : PurePath) : Prop :=
  os.Loops os.cwd videoRoot ∨
    ∃ root, os.Resolution os.cwd videoRoot root ∧ os.Loops root (.ofString rawPath)

/-- The request is well formed, and the calls of `resolve` answer with a path under the root. -/
structure Reaches (os : Os) (rawPath : String) (videoRoot : PurePath) (path : List FileName) :
    Prop where
  notBlank : isBlank rawPath = false
  noNull : '\x00' ∉ rawPath.toList
  length_le : rawPath.length ≤ maxPathLength
  resolved : ∃ root, os.ResolvesTo .resolveRoot os.cwd videoRoot root ∧
    os.ResolvesTo .resolveRequest os.cwd ((PurePath.ofEntry root).join (.ofString rawPath)) path ∧
    root <+: path

/-- Whatever the call raises is taken for an answer. -/
def Answers (r : Except SystemError (FileKind FileName)) : Prop :=
  ∀ e, r = .error e → e.isIgnored = true

/-- The `stat` of `exists` answers for a path under the root, and if it finds something there, that
of `is_file` answers too. -/
def StatsAnswer (os : Os) (rawPath : String) (videoRoot : PurePath) : Prop :=
  ∀ path, os.Reaches rawPath videoRoot path →
    Answers (os.stat .exists path) ∧
    ∀ kind, os.stat .exists path = .ok kind → Answers (os.stat .isFile path)

/-- After a loop of links neither call of `resolve` answers with a regular file under the root. -/
def LoopsBarred (os : Os) (rawPath : String) (videoRoot : PurePath) : Prop :=
  os.MeetsLoop rawPath videoRoot → ∀ path, os.Reaches rawPath videoRoot path →
    ∀ kind, os.stat .exists path = .ok kind → os.stat .isFile path ≠ .ok .file

/-- A path means one entry. -/
lemma Resolution.unique {path' : List FileName} (h : os.Resolution base p path)
    (h' : os.Resolution base p path') : path = path' := by
  obtain ⟨steps, n, hsteps, hn⟩ := h
  obtain ⟨steps', n', hsteps', hn'⟩ := h'
  obtain rfl := Option.some.inj (hsteps.symm.trans hsteps')
  exact hn.unique hn'

lemma Resolution.not_loops (h : os.Resolution base p path) : ¬os.Loops base p :=
  fun hl => hl.2 path h

lemma Resolution.plain (h : os.Resolution base p path) (hb : os.Plain base) : os.Plain path := by
  obtain ⟨steps, n, -, hn⟩ := h
  apply hn.plain
  split
  · exact os.plain_nil
  · exact hb

lemma ResolvesTo.resolution (h : os.ResolvesTo call base p path) (hl : ¬os.Loops base p) :
    os.Resolution base p path :=
  h.2.resolve_right fun hloop => hl hloop.1

lemma realPath_eq_some_iff {steps : List (PathStep FileName)} (hsteps : p.steps? = some steps) :
    os.realPath (if p.isAbsolute then [] else base) steps = some path ↔
      os.Resolution base p path := by
  rw [FileSystem.realPath_eq_some_iff]
  constructor
  · rintro ⟨n, hn⟩
    exact ⟨steps, n, hsteps, hn⟩
  · rintro ⟨steps', n, hsteps', hn⟩
    obtain rfl := Option.some.inj (hsteps.symm.trans hsteps')
    exact ⟨n, hn⟩

lemma loops_of_realPath {steps : List (PathStep FileName)} (hsteps : p.steps? = some steps)
    (hnone : os.realPath (if p.isAbsolute then [] else base) steps = none) : os.Loops base p := by
  refine ⟨by rw [hsteps]; rfl, fun path hres => ?_⟩
  rw [(realPath_eq_some_iff hsteps).mpr hres] at hnone
  cases hnone

lemma ResolvesTo.resolution_of_looped (h : os.ResolvesTo call base p path)
    (hl : os.looped call = none) : os.Resolution base p path := by
  refine h.2.resolve_right ?_
  rintro ⟨-, hsome⟩
  rw [hl] at hsome
  cases hsome

/-- What the links lead to is no loop for the `stat` at the end. -/
lemma resolve_eq_ok_iff : os.resolve call p = .ok path ↔ os.ResolvesTo call os.cwd p path := by
  rw [resolve, ResolvesTo]
  cases hr : os.raises call with
  | some e => simp
  | none =>
    cases hsteps : p.steps? with
    | none => simp [Resolution, Loops, hsteps]
    | some steps =>
      dsimp only
      cases hq : os.realPath (if p.isAbsolute then [] else os.cwd) steps with
      | some q =>
        have hres := (realPath_eq_some_iff hsteps).mp hq
        have hstat := FileSystem.stat_ne_loop (hres.plain os.plain_cwd)
        dsimp only
        rw [if_neg hstat, Except.ok.injEq]
        constructor
        · rintro rfl
          exact ⟨rfl, .inl hres⟩
        · rintro ⟨-, hpath | ⟨hloop, -⟩⟩
          · exact hres.unique hpath
          · exact absurd hloop hres.not_loops
      | none =>
        have hloop := loops_of_realPath hsteps hq
        have hnone := hloop.2 path
        cases hl : os.looped call with
        | some q => simp [hnone, hloop]
        | none => simp [hnone]

lemma Contained.plain (h : os.Contained rawPath videoRoot path) : os.Plain path := by
  obtain ⟨root, hroot, hrequest, -⟩ := h
  exact hrequest.plain (hroot.plain os.plain_cwd)

/-- A loop on the way keeps a request from meaning anything. -/
lemma Contained.not_meetsLoop (h : os.Contained rawPath videoRoot path) :
    ¬os.MeetsLoop rawPath videoRoot := by
  obtain ⟨root, hroot, hrequest, -⟩ := h
  rintro (hloop | ⟨root', hroot', hloop⟩)
  · exact hroot.not_loops hloop
  · obtain rfl := hroot.unique hroot'
    exact hrequest.not_loops hloop

/-- A path joined to an entry without links means what it means relative to it. -/
lemma resolution_join (hroot : os.Plain root) :
    os.Resolution base ((PurePath.ofEntry root).join p) path ↔ os.Resolution root p path := by
  by_cases hp : p.isAbsolute = true
  · rw [PurePath.join, if_pos hp, Resolution, Resolution, hp, if_pos rfl, if_pos rfl]
  · have hrel := Bool.eq_false_of_not_eq_true hp
    have hnil : os.Plain ([] ++ root) := hroot
    have hnames : ∀ n steps, os.Resolves n [] (root.map .name ++ steps) path ↔
        os.Resolves n root steps path :=
      fun _ _ => FileSystem.resolves_names_iff hnil
    rw [Resolution, Resolution, PurePath.steps?_join hrel, PurePath.isAbsolute_join hrel,
      if_pos rfl, if_neg hp]
    constructor
    · rintro ⟨joined, n, hjoined, hn⟩
      obtain ⟨steps, hsteps, rfl⟩ := Option.map_eq_some_iff.mp hjoined
      exact ⟨steps, n, hsteps, (hnames n steps).mp hn⟩
    · rintro ⟨steps, n, hsteps, hn⟩
      exact ⟨_, n, Option.map_eq_some_iff.mpr ⟨steps, hsteps, rfl⟩, (hnames n steps).mpr hn⟩

lemma loops_join (hroot : os.Plain root) :
    os.Loops base ((PurePath.ofEntry root).join p) ↔ os.Loops root p := by
  have hsome : ((PurePath.ofEntry root).join p).steps?.isSome = p.steps?.isSome := by
    by_cases hp : p.isAbsolute = true
    · rw [PurePath.join, if_pos hp]
    · rw [PurePath.steps?_join (Bool.eq_false_of_not_eq_true hp), Option.isSome_map]
  rw [Loops, Loops, hsome]
  simp only [resolution_join hroot]

/-- The two resolutions give what the calls answer for the root and for the request under it. -/
lemma resolveUnder_eq_ok_iff : os.resolveUnder p videoRoot = .ok (root, path) ↔
    os.ResolvesTo .resolveRoot os.cwd videoRoot root ∧
      os.ResolvesTo .resolveRequest os.cwd ((PurePath.ofEntry root).join p) path := by
  rw [resolveUnder]
  constructor
  · intro h
    split at h
    · cases h
    · next hroot =>
      rw [PurePath.ite_join] at h
      split at h
      · cases h
      · next hrequest =>
        cases h
        exact ⟨resolve_eq_ok_iff.mp hroot, resolve_eq_ok_iff.mp hrequest⟩
  · rintro ⟨hroot, hrequest⟩
    rw [resolve_eq_ok_iff.mpr hroot]
    dsimp only
    rw [PurePath.ite_join, resolve_eq_ok_iff.mpr hrequest]

/-- Without a loop on the way, a request that reaches a path means it. -/
lemma Reaches.contained (h : os.Reaches rawPath videoRoot path)
    (hloop : ¬os.MeetsLoop rawPath videoRoot) : os.Contained rawPath videoRoot path := by
  obtain ⟨root, hroot, hrequest, hunder⟩ := h.resolved
  have hres := hroot.resolution fun hl => hloop (.inl hl)
  have hplain := hres.plain os.plain_cwd
  refine ⟨root, hres, (resolution_join hplain).mp (hrequest.resolution ?_), hunder⟩
  rw [loops_join hplain]
  exact fun hl => hloop (.inr ⟨root, hres, hl⟩)

/-- A request that means a path under the root reaches it, if neither call of `resolve` raises. -/
lemma Contained.resolved (h : os.Contained rawPath videoRoot path)
    (hr : ∀ call, os.raises call = none) : ∃ root,
      os.ResolvesTo .resolveRoot os.cwd videoRoot root ∧
      os.ResolvesTo .resolveRequest os.cwd ((PurePath.ofEntry root).join (.ofString rawPath)) path ∧
      root <+: path := by
  obtain ⟨root, hroot, hrequest, hunder⟩ := h
  refine ⟨root, ⟨hr _, .inl hroot⟩, ⟨hr _, .inl ?_⟩, hunder⟩
  exact (resolution_join (hroot.plain os.plain_cwd)).mpr hrequest

/-- Loops do no harm where `resolve` raises for every one, as documented. -/
lemma loopsBarred_of_looped (hl : ∀ call, os.looped call = none) :
    os.LoopsBarred rawPath videoRoot := by
  intro hloop path hreach
  obtain ⟨root, hroot, hrequest, hunder⟩ := hreach.resolved
  have hroot := hroot.resolution_of_looped (hl _)
  have hrequest := hrequest.resolution_of_looped (hl _)
  have hcontained : os.Contained rawPath videoRoot path :=
    ⟨root, hroot, (resolution_join (hroot.plain os.plain_cwd)).mp hrequest, hunder⟩
  exact absurd hloop hcontained.not_meetsLoop

lemma stat_eq_ok {kind : FileKind FileName} (h : os.stat call path = .ok kind) :
    os.toFileSystem.stat path = .ok kind := by
  rw [stat] at h
  split at h
  · cases h
  · split at h
    · next hs =>
      cases h
      exact hs
    · cases h

/-! ### The tests after the guard -/

variable {test : FileKind FileName → Bool} {e : Raised}

lemma probe_eq_true_iff : os.probe call test path = .ok true ↔
    ∃ kind, os.stat call path = .ok kind ∧ test kind = true := by
  rw [probe]
  split
  · next kind hs =>
    rw [hs]
    simp
  · next e hs =>
    rw [hs]
    split <;> simp

lemma probe_eq_error_iff : os.probe call test path = .error e ↔
    ∃ e', os.stat call path = .error e' ∧ e'.isIgnored = false ∧ e = .system e' := by
  rw [probe]
  split
  · next kind hs =>
    rw [hs]
    simp
  · next e' hs =>
    rw [hs]
    split
    · next hi => simp [hi]
    · next hi =>
      constructor
      · intro h
        cases h
        exact ⟨e', rfl, Bool.eq_false_of_not_eq_true hi, rfl⟩
      · rintro ⟨e'', heq, -, rfl⟩
        rw [Except.error.inj heq]

lemma eq_of_checkFile {resolved : List FileName} (h : os.checkFile p resolved = .ok path) :
    path = resolved ∧ (∃ kind, os.stat .exists resolved = .ok kind) ∧
      os.stat .isFile resolved = .ok .file := by
  rw [checkFile] at h
  split at h
  · cases h
  · cases h
  · next hexists =>
    obtain ⟨kind, hkind, -⟩ := probe_eq_true_iff.mp hexists
    split at h
    · cases h
    · cases h
    · next hfile =>
      cases h
      obtain ⟨kind', hs, hkind'⟩ := probe_eq_true_iff.mp hfile
      rw [decide_eq_true_eq] at hkind'
      exact ⟨rfl, ⟨kind, hkind⟩, hkind' ▸ hs⟩

lemma checkFile_of_exists {kind : FileKind FileName} (hs : os.stat .exists path = .ok kind) :
    os.checkFile p path =
      match os.isFile path with
      | .error e  => .error e
      | .ok false => .error (.pathValidation "file_path does not point at a regular file")
      | .ok true  => .ok path := by
  have hexists : os.pathExists path = .ok true := probe_eq_true_iff.mpr ⟨kind, hs, rfl⟩
  rw [checkFile, hexists]

/-- The tests raise one of the two errors at most, if and only if the calls in them answer. -/
lemma checkFile_isPathError_iff :
    (∀ e, os.checkFile p path = .error e → e.isPathError = true) ↔
      Answers (os.stat .exists path) ∧
      ∀ kind, os.stat .exists path = .ok kind → Answers (os.stat .isFile path) := by
  constructor
  · intro h
    constructor
    · intro e hs
      by_contra hi
      have hexists : os.pathExists path = .error (.system e) :=
        probe_eq_error_iff.mpr ⟨e, hs, Bool.eq_false_of_not_eq_true hi, rfl⟩
      have herr := h (.system e) (by rw [checkFile, hexists])
      cases herr
    · intro kind hkind e hs
      by_contra hi
      have hfile : os.isFile path = .error (.system e) :=
        probe_eq_error_iff.mpr ⟨e, hs, Bool.eq_false_of_not_eq_true hi, rfl⟩
      have herr := h (.system e) (by rw [checkFile_of_exists hkind, hfile])
      cases herr
  · rintro ⟨hexists, hfile⟩ e h
    rw [checkFile] at h
    split at h
    · next hs =>
      obtain ⟨e', hs, hi, -⟩ := probe_eq_error_iff.mp hs
      rw [hexists e' hs] at hi
      cases hi
    · cases h
      rfl
    · next htrue =>
      obtain ⟨kind, hkind, -⟩ := probe_eq_true_iff.mp htrue
      split at h
      · next hs =>
        obtain ⟨e', hs, hi, -⟩ := probe_eq_error_iff.mp hs
        rw [hfile kind hkind e' hs] at hi
        cases hi
      · cases h
        rfl
      · cases h

/-! ### The request as a whole -/

/-- A request that reaches a path under the root is decided by the tests. -/
lemma resolveVideoPath_of_reaches (h : os.Reaches rawPath videoRoot path) :
    os.resolveVideoPath rawPath videoRoot = os.checkFile (.ofString rawPath) path := by
  obtain ⟨root, hroot, hrequest, hunder⟩ := h.resolved
  rw [resolveVideoPath, if_neg (by rw [h.notBlank]; exact Bool.false_ne_true), if_neg h.noNull,
    if_neg h.length_le.not_gt, resolveUnder_eq_ok_iff.mpr ⟨hroot, hrequest⟩]
  exact if_pos (isRelativeTo_iff.mpr hunder)

/-- Any other request is refused. -/
lemma reaches_or_refused (os : Os) (rawPath : String) (videoRoot : PurePath) :
    (∃ path, os.Reaches rawPath videoRoot path) ∨
      ∃ message, os.resolveVideoPath rawPath videoRoot = .error (.pathValidation message) := by
  rw [resolveVideoPath]
  split
  · exact .inr ⟨_, rfl⟩
  · next hblank =>
    split
    · exact .inr ⟨_, rfl⟩
    · next hnull =>
      split
      · exact .inr ⟨_, rfl⟩
      · next hlen =>
        split
        · exact .inr ⟨_, rfl⟩
        · next root resolved hunder =>
          split
          · next hrel =>
            left
            obtain ⟨hroot, hrequest⟩ := resolveUnder_eq_ok_iff.mp hunder
            exact ⟨resolved, Bool.eq_false_of_not_eq_true hblank, hnull, not_lt.mp hlen, root,
              hroot, hrequest, isRelativeTo_iff.mp hrel⟩
          · exact .inr ⟨_, rfl⟩

/-- What is returned is reached, and both tests find it. -/
lemma resolveVideoPath_eq_ok_iff : os.resolveVideoPath rawPath videoRoot = .ok path ↔
    os.Reaches rawPath videoRoot path ∧ (∃ kind, os.stat .exists path = .ok kind) ∧
      os.stat .isFile path = .ok .file := by
  constructor
  · intro h
    rcases reaches_or_refused os rawPath videoRoot with ⟨path', hreach⟩ | ⟨message, hrefused⟩
    · rw [resolveVideoPath_of_reaches hreach] at h
      obtain ⟨rfl, hexists, hfile⟩ := eq_of_checkFile h
      exact ⟨hreach, hexists, hfile⟩
    · rw [hrefused] at h
      cases h
  · rintro ⟨hreach, ⟨kind, hexists⟩, hfile⟩
    have hisFile : os.isFile path = .ok true := probe_eq_true_iff.mpr ⟨.file, hfile, rfl⟩
    rw [resolveVideoPath_of_reaches hreach, checkFile_of_exists hexists, hisFile]

/-- A regular file that the request means is its video. -/
lemma Contained.isVideo (h : os.Contained rawPath videoRoot path)
    (hstat : os.stat call path = .ok .file) : os.IsVideo rawPath videoRoot path := by
  have hfile : os.tree.entry path = some .file :=
    FileSystem.entry_of_stat h.plain (stat_eq_ok hstat)
  refine ⟨h, hfile, ?_⟩
  intro q hq target hlink
  by_cases hne : q = path
  · rw [hne, hfile] at hlink
    cases hlink
  · rw [FileTree.entry_of_isPrefix hfile hq hne] at hlink
    cases hlink

/-- What the function returns is the video of the request, if and only if no loop of links leads to
a file. -/
lemma isVideo_iff_loopsBarred :
    (∀ path, os.resolveVideoPath rawPath videoRoot = .ok path →
      os.IsVideo rawPath videoRoot path) ↔ os.LoopsBarred rawPath videoRoot := by
  constructor
  · intro h hloop path hreach kind hexists hfile
    have hvideo := h path (resolveVideoPath_eq_ok_iff.mpr ⟨hreach, ⟨kind, hexists⟩, hfile⟩)
    exact hvideo.contained.not_meetsLoop hloop
  · intro h path hok
    obtain ⟨hreach, ⟨kind, hexists⟩, hfile⟩ := resolveVideoPath_eq_ok_iff.mp hok
    have hloop : ¬os.MeetsLoop rawPath videoRoot :=
      fun hloop => h hloop path hreach kind hexists hfile
    exact (hreach.contained hloop).isVideo hfile

/-- What a `stat` raises goes through `exists` and the function, unless `exists` ignores it. -/
lemma resolveVideoPath_of_stat_error {e : SystemError} (h : os.Reaches rawPath videoRoot path)
    (hs : os.stat .exists path = .error e) (hi : e.isIgnored = false) :
    os.resolveVideoPath rawPath videoRoot = .error (.system e) := by
  have hexists : os.pathExists path = .error (.system e) :=
    probe_eq_error_iff.mpr ⟨e, hs, hi, rfl⟩
  rw [resolveVideoPath_of_reaches h, checkFile, hexists]

lemma isPathError_iff_statsAnswer :
    (∀ e, os.resolveVideoPath rawPath videoRoot = .error e → e.isPathError = true) ↔
      os.StatsAnswer rawPath videoRoot := by
  constructor
  · intro h path hreach
    rw [resolveVideoPath_of_reaches hreach] at h
    exact checkFile_isPathError_iff.mp h
  · intro h e herr
    rcases reaches_or_refused os rawPath videoRoot with ⟨path, hreach⟩ | ⟨message, hrefused⟩
    · rw [resolveVideoPath_of_reaches hreach] at herr
      exact checkFile_isPathError_iff.mpr (h path hreach) e herr
    · rw [hrefused] at herr
      cases herr
      rfl

/-! ### Files under the root -/

/-- What is under an entry without links, and no link, is meant by its relative path. -/
lemma resolution_relative (hplain : os.Plain (root ++ path)) :
    os.Resolution root (.relative path) (root ++ path) := by
  refine ⟨path.map .name, 0, PurePath.steps?_relative path, ?_⟩
  have h : os.Resolves 0 root (path.map .name ++ []) (root ++ path) ↔
      os.Resolves 0 (root ++ path) [] (root ++ path) := FileSystem.resolves_names_iff hplain
  rw [List.append_nil] at h
  exact h.mpr (.nil _ _)

/-- The relative path of what lies under the root reaches it. -/
lemma reaches_relative (hr : ∀ call, os.raises call = none)
    (hroot : os.Resolution os.cwd videoRoot root) (hplain : os.Plain (root ++ path))
    (hblank : isBlank (PurePath.relative path).str = false)
    (hlen : (PurePath.relative path).str.length ≤ maxPathLength) :
    os.Reaches (PurePath.relative path).str videoRoot (root ++ path) := by
  refine ⟨hblank, PurePath.noNull_str_relative path, hlen, Contained.resolved ?_ hr⟩
  refine ⟨root, hroot, ?_, List.prefix_append _ _⟩
  rw [PurePath.ofString_str_relative]
  exact resolution_relative hplain

lemma stat_of_file (hr : os.raises call = none) (hf : os.error? path = none)
    (hfile : os.tree.entry path = some .file) : os.stat call path = .ok .file := by
  rw [stat, hr]
  dsimp only
  rw [FileSystem.stat_of_entry hf hfile rfl]

/-- A regular file under the root is accepted under its relative path. -/
lemma resolveVideoPath_relative (hr : ∀ call, os.raises call = none)
    (hroot : os.Resolution os.cwd videoRoot root)
    (hfile : os.tree.entry (root ++ path) = some .file) (hf : os.error? (root ++ path) = none)
    (hblank : isBlank (PurePath.relative path).str = false)
    (hlen : (PurePath.relative path).str.length ≤ maxPathLength) :
    os.resolveVideoPath (PurePath.relative path).str videoRoot = .ok (root ++ path) := by
  have hreach := reaches_relative hr hroot (FileSystem.plain_of_entry hfile rfl) hblank hlen
  have hstat : ∀ call, os.stat call (root ++ path) = .ok .file :=
    fun _ => stat_of_file (hr _) hf hfile
  exact resolveVideoPath_eq_ok_iff.mpr ⟨hreach, ⟨.file, hstat _⟩, hstat _⟩

/-- What is returned is the video of the request, and no error escapes but the two of the function,
if and only if no loop of links leads to a file and the `stat` calls after the guard answer. And
every regular file under the root is accepted under its relative path, if no call and no lookup on
its way raises. -/
theorem resolveVideoPath_contained_iff (os : Os) (rawPath : String) (videoRoot : PurePath) :
    (((∀ path, os.resolveVideoPath rawPath videoRoot = .ok path →
        os.IsVideo rawPath videoRoot path) ∧
      ∀ e, os.resolveVideoPath rawPath videoRoot = .error e → e.isPathError = true) ↔
        os.LoopsBarred rawPath videoRoot ∧ os.StatsAnswer rawPath videoRoot) ∧
    ((∀ call, os.raises call = none) → ∀ root path, os.Resolution os.cwd videoRoot root →
      os.tree.entry (root ++ path) = some .file → os.error? (root ++ path) = none →
      isBlank (PurePath.relative path).str = false →
      (PurePath.relative path).str.length ≤ maxPathLength →
      os.resolveVideoPath (PurePath.relative path).str videoRoot = .ok (root ++ path)) := by
  refine ⟨and_congr isVideo_iff_loopsBarred isPathError_iff_statsAnswer, ?_⟩
  intro hr root path hroot hfile hf hblank hlen
  exact resolveVideoPath_relative hr hroot hfile hf hblank hlen

/-- As long as no call and no lookup raises, the calls after the guard answer. -/
lemma statsAnswer_of_silent (hr : ∀ call, os.raises call = none)
    (hf : ∀ path, os.failure path = none) : os.StatsAnswer rawPath videoRoot := by
  have hanswers : ∀ call path, Answers (os.stat call path) := by
    intro call path e h
    rw [stat, hr] at h
    dsimp only at h
    split at h
    · cases h
    · next e' hs =>
      cases h
      have hmem := FileSystem.error_of_stat hf hs
      simp only [FileSystem.walkErrors, List.mem_cons, List.not_mem_nil, or_false] at hmem
      rcases hmem with rfl | rfl | rfl <;> rfl
  exact fun path _ => ⟨hanswers _ _, fun _ _ => hanswers _ _⟩

def videos : FileName := ⟨"videos", by decide +kernel⟩

def clip : FileName := ⟨"clip.mp4", by decide +kernel⟩

def latest : FileName := ⟨"latest", by decide +kernel⟩

def data : FileName := ⟨"data", by decide +kernel⟩

def loop : FileName := ⟨"loop", by decide +kernel⟩

def out : FileName := ⟨"out", by decide +kernel⟩

def secret : FileName := ⟨"secret", by decide +kernel⟩

/-- A directory with a clip, a link to the directory, and a link to the clip by way of that link. -/
def clips : FileTree FileName where
  entries := ⟨[([videos], .directory), ([videos, clip], .file),
    ([data], .link ⟨false, [.name videos]⟩),
    ([videos, latest], .link ⟨true, [.name data, .up, .name data, .name clip]⟩)],
    by decide +kernel⟩
  parents := by decide +kernel

/-- The request goes through two links, one of them absolute, and back up. It comes to the clip,
which is also accepted under its own name. -/
theorem resolveVideoPath_contained_latest :
    ∃ os : Os, os.resolveVideoPath "latest" (.ofString "/data") = .ok [videos, clip] ∧
      os.IsVideo "latest" (.ofString "/data") [videos, clip] ∧
      os.resolveVideoPath "clip.mp4" (.ofString "/data") = .ok [videos, clip] := by
  have hok : resolveVideoPath { tree := clips } "latest" (.ofString "/data") =
      .ok [videos, clip] := by decide +kernel
  have hroot : Resolution { tree := clips } [] (.ofString "/data") [videos] :=
    (realPath_eq_some_iff rfl).mp (by decide +kernel)
  obtain ⟨hiff, hfiles⟩ := resolveVideoPath_contained_iff { tree := clips } "latest"
    (.ofString "/data")
  refine ⟨{ tree := clips }, hok, ?_, ?_⟩
  · have hstats : StatsAnswer { tree := clips } "latest" (.ofString "/data") :=
      statsAnswer_of_silent (fun _ => rfl) fun _ => rfl
    exact (hiff.mpr ⟨loopsBarred_of_looped fun _ => rfl, hstats⟩).1 _ hok
  · exact hfiles (fun _ => rfl) [videos] [clip] hroot (by decide +kernel) (by decide +kernel)
      (by decide +kernel) (by decide +kernel)

/-- The clips, a link to itself, and a link to a file beside their directory. -/
def clipsAndLoop : FileTree FileName where
  entries := ((clips.entries.set [videos, loop] (.link ⟨false, [.name loop]⟩)).set [videos, out]
    (.link ⟨false, [.up, .name secret]⟩)).set [secret] .file
  parents := by decide +kernel

-- CPython 3.12 goes on after the loop with the names alone, and the link is returned.
example : resolveVideoPath { tree := clipsAndLoop, looped := fun _ => some [videos, out] }
    "loop/../out" (.ofString "/videos") = .ok [videos, out] := by decide +kernel

/-- A name has 255 bytes at most, and a longer one makes its lookup fail with `ENAMETOOLONG`. -/
def nameTooLong (path : List FileName) : Option Errno :=
  if path.any fun m => 255 < m.1.utf8ByteSize then some (.other 36) else none

/-- Nothing under a directory can be looked up without the permission to search it: `EACCES`. -/
def unsearchable (directory path : List FileName) : Option Errno :=
  if directory <+: path ∧ directory ≠ path then some (.other 13) else none

/-- A name of 300 letters. -/
def letters : FileName :=
  ⟨String.ofList (List.replicate 300 'a'),
    isFileName_replicate 299 (by decide) (by decide) (by decide)⟩

lemma nameTooLong_ne_loop (path : List FileName) : nameTooLong path ≠ some .loop := by
  rw [nameTooLong]
  split <;> decide

lemma unsearchable_ne_loop (directory path : List FileName) :
    unsearchable directory path ≠ some .loop := by
  rw [unsearchable]
  split <;> decide

/-- The clips on a file system with a limit on the names. -/
def limited : Os where
  tree := clips
  failure := nameTooLong
  failure_ne_loop := nameTooLong_ne_loop

/-- The clips in a directory that may not be searched. -/
def barred : Os where
  tree := clips
  failure := unsearchable [videos]
  failure_ne_loop := unsearchable_ne_loop [videos]

lemma reaches_letters : limited.Reaches letters.1 (.ofString "/videos") [videos, letters] := by
  have hroot : limited.Resolution [] (.ofString "/videos") [videos] :=
    (realPath_eq_some_iff rfl).mp (by decide +kernel)
  have hvideos : limited.tree.entry [videos] = some .directory := by decide +kernel
  have hplain : limited.Plain ([videos] ++ [letters]) :=
    (FileSystem.plain_of_entry hvideos rfl).append_name (by decide +kernel)
  have hblank : isBlank letters.1 = false := isBlank_replicate 299 (by decide)
  have hletters : letters.1.length = 300 := String.length_ofList.trans List.length_replicate
  have hlen : letters.1.length ≤ maxPathLength := by
    rw [hletters]
    decide
  rw [← PurePath.str_relative_singleton] at hblank hlen ⊢
  exact reaches_relative (fun _ => rfl) hroot hplain hblank hlen

/-- A name of 300 letters under the root makes `exists` raise, and so does any name in a directory
that may not be searched. -/
theorem system_error_escapes :
    (∃ os : Os, (∀ call, os.raises call = none) ∧
      os.resolveVideoPath (String.ofList (List.replicate 300 'a')) (.ofString "/videos") =
        .error (.system (.osError (.other 36)))) ∧
    ∃ os : Os, (∀ call, os.raises call = none) ∧
      os.resolveVideoPath "clip.mp4" (.ofString "/videos") =
        .error (.system (.osError (.other 13))) := by
  constructor
  · refine ⟨limited, fun _ => rfl, ?_⟩
    exact resolveVideoPath_of_stat_error reaches_letters (by decide +kernel) rfl
  · exact ⟨barred, fun _ => rfl, by decide +kernel⟩

end Os

end VideoPipeline
