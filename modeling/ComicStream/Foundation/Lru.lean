import Mathlib.Data.List.Nodup

/-!
# Bounded maps with least-recently-used eviction

The entries stand in the order of their last use, the most recent one first. A
map carries the proofs that its keys are distinct and that it is not longer than
its capacity. Looking a key up changes the order alone, and an insertion can only
lose entries of other keys.
-/

namespace ComicStream

structure Lru (Key Value : Type*) where
  capacity : ℕ
  entries : List (Key × Value)
  keys_nodup : (entries.map Prod.fst).Nodup
  length_le : entries.length ≤ capacity

namespace Lru

variable {Key Value : Type*}

/-- No entries. -/
def empty (capacity : ℕ) : Lru Key Value where
  capacity := capacity
  entries := []
  keys_nodup := List.nodup_nil
  length_le := Nat.zero_le _

variable [DecidableEq Key]

/-- The entries of the other keys. -/
def others (entries : List (Key × Value)) (key : Key) : List (Key × Value) :=
  entries.filter fun entry ↦ entry.1 ≠ key

theorem mem_others {entries : List (Key × Value)} {key : Key} {entry : Key × Value} :
    entry ∈ others entries key ↔ entry ∈ entries ∧ entry.1 ≠ key := by
  simp [others]

theorem nodup_cons_others {entries : List (Key × Value)} (h : (entries.map Prod.fst).Nodup)
    (key : Key) (value : Value) : (((key, value) :: others entries key).map Prod.fst).Nodup := by
  rw [List.map_cons, List.nodup_cons]
  refine ⟨?_, h.sublist (List.filter_sublist.map _)⟩
  intro hmem
  obtain ⟨entry, hentry, hkey⟩ := List.mem_map.mp hmem
  exact (mem_others.mp hentry).2 hkey

variable (lru : Lru Key Value)

/-- The value of a key, without a change to the order. -/
def peek (key : Key) : Option Value := (lru.entries.find? (·.1 = key)).map Prod.snd

/-- An entry becomes the most recent one. An entry of a new key takes the place of the least
recent one in a full map. -/
def put (key : Key) (value : Value) : Lru Key Value where
  capacity := lru.capacity
  entries := ((key, value) :: others lru.entries key).take lru.capacity
  keys_nodup :=
    (nodup_cons_others lru.keys_nodup key value).sublist ((List.take_sublist _ _).map _)
  length_le := List.length_take_le _ _

/-- The value of a key, whose entry becomes the most recent one. -/
def get (key : Key) : Option Value × Lru Key Value :=
  match lru.peek key with
  | some value => (some value, lru.put key value)
  | none => (none, lru)

variable {lru} {key : Key} {value : Value}

theorem peek_eq_some : lru.peek key = some value ↔ (key, value) ∈ lru.entries := by
  rw [peek, Option.map_eq_some_iff]
  constructor
  · rintro ⟨entry, hentry, rfl⟩
    have hkey : entry.1 = key := by simpa using List.find?_some hentry
    rw [← hkey]
    exact List.mem_of_find?_eq_some hentry
  · intro hmem
    cases hfind : lru.entries.find? (·.1 = key) with
    | none =>
      have hne := List.find?_eq_none.mp hfind _ hmem
      simp at hne
    | some entry =>
      have hkey : entry.1 = key := by simpa using List.find?_some hfind
      have hsame := List.inj_on_of_nodup_map lru.keys_nodup (List.mem_of_find?_eq_some hfind) hmem
        hkey
      exact ⟨entry, rfl, by rw [hsame]⟩

theorem mem_put {entry : Key × Value} (h : entry ∈ (lru.put key value).entries) :
    entry = (key, value) ∨ entry ∈ lru.entries ∧ entry.1 ≠ key := by
  have hmem := List.mem_of_mem_take h
  exact (List.mem_cons.mp hmem).imp_right mem_others.mp

@[simp]
theorem get_fst : (lru.get key).1 = lru.peek key := by
  unfold get
  cases lru.peek key <;> rfl

/-- A lookup leaves no entry that was not there. -/
theorem mem_get {entry : Key × Value} (h : entry ∈ (lru.get key).2.entries) :
    entry ∈ lru.entries := by
  unfold get at h
  cases hpeek : lru.peek key with
  | none =>
    rw [hpeek] at h
    exact h
  | some value =>
    rw [hpeek] at h
    rcases mem_put h with rfl | hold
    · exact peek_eq_some.mp hpeek
    · exact hold.1

end Lru

end ComicStream
