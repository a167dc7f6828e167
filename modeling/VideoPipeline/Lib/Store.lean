import Mathlib.Data.List.Basic
import Mathlib.Data.List.Nodup
import Mathlib.Data.Int.Basic
import Mathlib.Logic.Function.Basic

/-!
# Dictionaries and hash stores

`Dict` is a dictionary that iterates over its entries in the order in which their keys were first
inserted. `HashStore` is a key-value store whose values are strings or hashes: writing to a hash
creates it when it is absent and merges the written fields into it.
-/

/-- A dictionary in the order of the first insertion of its keys. -/
structure Dict (κ υ : Type*) where
  entries : List (κ × υ)
  nodup : (entries.map Prod.fst).Nodup

namespace Dict

variable {κ υ : Type*} [DecidableEq κ] {d : Dict κ υ} {k k' : κ} {v v' : υ} {p : υ → Bool}

instance : EmptyCollection (Dict κ υ) := ⟨⟨[], List.nodup_nil⟩⟩

def get (d : Dict κ υ) (k : κ) : Option υ := (d.entries.find? (·.1 = k)).map Prod.snd

/-- The entries after an assignment: a present key keeps its place. -/
def assign (l : List (κ × υ)) (k : κ) (v : υ) : List (κ × υ) :=
  if k ∈ l.map Prod.fst then l.map fun e => if e.1 = k then (k, v) else e else l ++ [(k, v)]

lemma map_fst_assign (l : List (κ × υ)) (k : κ) (v : υ) :
    (assign l k v).map Prod.fst =
      if k ∈ l.map Prod.fst then l.map Prod.fst else l.map Prod.fst ++ [k] := by
  rw [assign]
  split
  · rw [List.map_map]
    refine List.map_congr_left fun e _ => ?_
    by_cases he : e.1 = k
    · simp [he]
    · simp [he]
  · simp

lemma nodup_assign {l : List (κ × υ)} (hl : (l.map Prod.fst).Nodup) (k : κ) (v : υ) :
    ((assign l k v).map Prod.fst).Nodup := by
  rw [map_fst_assign]
  split
  · exact hl
  · next hk => exact hl.append (List.nodup_singleton k) (by simpa using hk)

def set (d : Dict κ υ) (k : κ) (v : υ) : Dict κ υ :=
  ⟨assign d.entries k v, nodup_assign d.nodup k v⟩

lemma entries_set : (d.set k v).entries = assign d.entries k v := rfl

/-- The keys in the order of their insertion. -/
def keys (d : Dict κ υ) : List κ := d.entries.map Prod.fst

/-- The dictionary without some keys. -/
def without (d : Dict κ υ) (ks : List κ) : Dict κ υ :=
  ⟨d.entries.filter (·.1 ∉ ks), d.nodup.sublist (List.filter_sublist.map Prod.fst)⟩

/-- The dictionary after a key was popped. -/
def pop (d : Dict κ υ) (k : κ) : Dict κ υ := d.without [k]

/-- The value inserted last among those satisfying `p`. -/
def latest (d : Dict κ υ) (p : υ → Bool) : Option υ := (d.entries.map Prod.snd).reverse.find? p

@[simp] lemma get_empty : (∅ : Dict κ υ).get k = none := rfl

omit [DecidableEq κ] in
@[simp] lemma latest_empty : (∅ : Dict κ υ).latest p = none := rfl

lemma get_eq_some : d.get k = some v ↔ (k, v) ∈ d.entries := by
  rw [get, Option.map_eq_some_iff]
  constructor
  · rintro ⟨⟨k₁, v₁⟩, hf, rfl⟩
    have hk : k₁ = k := by simpa using List.find?_some hf
    subst hk
    exact List.mem_of_find?_eq_some hf
  · intro hmem
    obtain ⟨e, hf⟩ := Option.isSome_iff_exists.mp
      (List.find?_isSome (p := (·.1 = k)).mpr ⟨(k, v), hmem, by simp⟩)
    have hk : e.1 = k := by simpa using List.find?_some hf
    have he : e = (k, v) := List.inj_on_of_nodup_map d.nodup (List.mem_of_find?_eq_some hf) hmem hk
    exact ⟨e, hf, by rw [he]⟩

lemma get_eq_none : d.get k = none ↔ k ∉ d.entries.map Prod.fst := by
  rw [get, Option.map_eq_none_iff, List.find?_eq_none, List.mem_map]
  constructor
  · rintro h ⟨e, he, rfl⟩
    exact h e he (by simp)
  · intro h e he hk
    exact h ⟨e, he, by simpa using hk⟩

lemma get_ne_none (h : d.get k = some v) : k ∈ d.entries.map Prod.fst :=
  List.mem_map_of_mem (get_eq_some.mp h)

omit [DecidableEq κ] in
@[simp] lemma keys_empty : (∅ : Dict κ υ).keys = [] := rfl

lemma keys_set_of_none (h : d.get k = none) : (d.set k v).keys = d.keys ++ [k] := by
  rw [keys, entries_set, map_fst_assign, if_neg (get_eq_none.mp h)]
  rfl

lemma mem_keys_set : k' ∈ (d.set k v).keys ↔ k' = k ∨ k' ∈ d.keys := by
  rw [keys, entries_set, map_fst_assign]
  split
  · next hk =>
    refine ⟨.inr, ?_⟩
    rintro (rfl | hk')
    · exact hk
    · exact hk'
  · rw [List.mem_append, List.mem_singleton, or_comm]
    rfl

@[simp] lemma keys_without (d : Dict κ υ) (ks : List κ) :
    (d.without ks).keys = d.keys.filter (· ∉ ks) := by
  rw [keys, keys, List.filter_map]
  rfl

@[simp] lemma keys_pop (d : Dict κ υ) (k : κ) : (d.pop k).keys = d.keys.filter (· ≠ k) := by
  simp [pop]

/-- A present key and the other keys. -/
lemma keys_perm_pop (h : k ∈ d.keys) : d.keys.Perm (k :: (d.pop k).keys) := by
  have hnodup : d.keys.Nodup := d.nodup
  have herase : d.keys.erase k = d.keys.filter (· ≠ k) := by
    rw [hnodup.erase_eq_filter]
    refine List.filter_congr fun x _ => ?_
    by_cases hx : x = k <;> simp [hx]
  rw [keys_pop, ← herase]
  exact List.perm_cons_erase h

/-- Popping one key after the other. -/
lemma foldl_pop (d : Dict κ υ) (ks : List κ) : ks.foldl pop d = d.without ks := by
  induction ks generalizing d with
  | nil => simp [without]
  | cons k ks ih =>
    rw [List.foldl_cons, ih, pop, without, without, without]
    congr 1
    simp [List.filter_filter, Bool.and_comm]

@[simp] lemma get_set_self : (d.set k v).get k = some v := by
  rw [get_eq_some, entries_set, assign]
  split
  · next hk =>
    obtain ⟨e, he, rfl⟩ := List.mem_map.mp hk
    exact List.mem_map.mpr ⟨e, he, by simp⟩
  · simp

lemma get_set_of_ne (h : k' ≠ k) : (d.set k v).get k' = d.get k' := by
  ext w
  rw [get_eq_some, get_eq_some, entries_set, assign]
  split
  · rw [List.mem_map]
    constructor
    · rintro ⟨e, he, heq⟩
      by_cases hk : e.1 = k
      · rw [if_pos hk] at heq
        exact absurd (congrArg Prod.fst heq).symm h
      · rw [if_neg hk] at heq
        exact heq ▸ he
    · intro hmem
      exact ⟨(k', w), hmem, if_neg h⟩
  · rw [List.mem_append, List.mem_singleton, or_iff_left]
    exact fun heq => h (congrArg Prod.fst heq)

@[simp] lemma get_pop_self : (d.pop k).get k = none := by
  rw [get_eq_none]
  change k ∉ (d.pop k).keys
  simp

lemma get_pop_of_ne (h : k' ≠ k) : (d.pop k).get k' = d.get k' := by
  ext w
  rw [get_eq_some, get_eq_some, pop, without, List.mem_filter]
  simp [h]

/-- A value inserted under a new key is the latest. -/
lemma latest_set_of_none (h : d.get k = none) :
    (d.set k v).latest p = if p v then some v else d.latest p := by
  rw [get_eq_none] at h
  rw [latest, entries_set, assign, if_neg h, List.map_append, List.reverse_append]
  by_cases hp : p v
  · simp [hp]
  · simp [hp, latest]

lemma get_of_latest (h : d.latest p = some v) : p v ∧ ∃ k, d.get k = some v := by
  refine ⟨List.find?_some h, ?_⟩
  have hmem := List.mem_reverse.mp (List.mem_of_find?_eq_some h)
  obtain ⟨e, he, rfl⟩ := List.mem_map.mp hmem
  exact ⟨e.1, get_eq_some.mpr he⟩

/-- Replacing a value by one that looks the same to `p` and `f` does not change what is seen of
the latest value. -/
lemma latest_set_of_some {α : Type*} {f : υ → α} (h : d.get k = some v) (hp : p v' = p v)
    (hf : f v' = f v) : ((d.set k v').latest p).map f = (d.latest p).map f := by
  have hv : ∀ e ∈ d.entries, e.1 = k → e.2 = v := fun e he hk => by
    have := get_eq_some.mpr (show (k, e.2) ∈ d.entries from hk ▸ he)
    rw [h] at this
    exact (Option.some.inj this).symm
  rw [latest, latest, entries_set, assign, if_pos (get_ne_none h), ← List.map_reverse,
    ← List.map_reverse, ← List.map_reverse]
  have hv : ∀ e ∈ d.entries.reverse, e.1 = k → e.2 = v := fun e he =>
    hv e (List.mem_reverse.mp he)
  generalize d.entries.reverse = l at hv ⊢
  induction l with
  | nil => rfl
  | cons e l ih =>
    have ih := ih fun e he => hv e (List.mem_cons_of_mem _ he)
    by_cases hk : e.1 = k
    · have hev := hv e List.mem_cons_self hk
      simp only [List.map_cons, hk, if_true, List.find?_cons, hev, hp]
      by_cases hpv : p v
      · simp [hpv, hf]
      · simpa [hpv] using ih
    · simp only [List.map_cons, hk, if_false, List.find?_cons]
      by_cases hpe : p e.2
      · simp [hpe]
      · simpa [hpe] using ih

end Dict

/-- A store of hashes and of strings under their keys. A field without a value is not in its
hash, and a hash without fields is absent. -/
structure HashStore (κ φ υ : Type*) where
  hashes : κ → φ → Option υ
  strings : κ → Option υ

namespace HashStore

variable {κ φ υ : Type*} [DecidableEq κ] {s : HashStore κ φ υ} {k k' : κ}
  {f f' : φ} {v : υ} {mapping : φ → Option υ}

instance : EmptyCollection (HashStore κ φ υ) := ⟨⟨fun _ _ => none, fun _ => none⟩⟩

/-- `HSET`: the fields of the mapping are written, the others stay. -/
def hset (s : HashStore κ φ υ) (k : κ) (mapping : φ → Option υ) : HashStore κ φ υ :=
  { s with hashes := Function.update s.hashes k fun f => (mapping f).or (s.hashes k f) }

/-- `HGETALL`. -/
def hgetall (s : HashStore κ φ υ) (k : κ) : φ → Option υ := s.hashes k

/-- `HINCRBY`, where `parse` and `print` read and write the number a field holds. There is no
result when the field holds something else. -/
def hincrby [DecidableEq φ] (parse : υ → Option ℤ) (print : ℤ → υ) (s : HashStore κ φ υ) (k : κ)
    (f : φ) (amount : ℤ) : Option (HashStore κ φ υ) :=
  (((s.hashes k f).map parse).getD (some 0)).map fun n =>
    s.hset k fun f' => if f' = f then some (print (n + amount)) else none

/-- `SET`. -/
def set (s : HashStore κ φ υ) (k : κ) (v : υ) : HashStore κ φ υ :=
  { s with strings := Function.update s.strings k (some v) }

/-- `GET`. -/
def get (s : HashStore κ φ υ) (k : κ) : Option υ := s.strings k

omit [DecidableEq κ] in
@[simp] lemma hgetall_empty : (∅ : HashStore κ φ υ).hgetall k = fun _ => none := rfl

omit [DecidableEq κ] in
@[simp] lemma get_empty : (∅ : HashStore κ φ υ).get k = none := rfl

@[simp] lemma hgetall_hset_self :
    (s.hset k mapping).hgetall k = fun f => (mapping f).or (s.hgetall k f) :=
  Function.update_self k _ _

lemma hgetall_hset_of_ne (h : k' ≠ k) : (s.hset k mapping).hgetall k' = s.hgetall k' :=
  Function.update_of_ne h _ _

@[simp] lemma get_hset : (s.hset k mapping).get k' = s.get k' := rfl

@[simp] lemma hgetall_set : (s.set k v).hgetall k' = s.hgetall k' := rfl

@[simp] lemma get_set_self : (s.set k v).get k = some v := Function.update_self k _ _

lemma get_set_of_ne (h : k' ≠ k) : (s.set k v).get k' = s.get k' :=
  Function.update_of_ne h _ _

variable [DecidableEq φ] {parse : υ → Option ℤ} {print : ℤ → υ} {n amount : ℤ}

/-- A counter that is absent counts from zero. -/
lemma hincrby_of_absent (h : s.hgetall k f = none) :
    s.hincrby parse print k f amount =
      some (s.hset k fun f' => if f' = f then some (print (0 + amount)) else none) := by
  rw [hincrby, show s.hashes k f = none from h]
  rfl

lemma hincrby_of_number (h : s.hgetall k f = some v) (hv : parse v = some n) :
    s.hincrby parse print k f amount =
      some (s.hset k fun f' => if f' = f then some (print (n + amount)) else none) := by
  rw [hincrby, show s.hashes k f = some v from h, Option.map_some, hv]
  rfl

end HashStore
