import Mathlib.Data.List.Nodup
import Mathlib.Logic.Function.Iterate

/-!
# Tables as lists of rows

`updateWhere` is an update of the rows with a given key. `settle` deletes rows
until those that are left justify one another, as a cascading delete does: it
ends in a table none of whose rows has to go, and never touches a set of rows
that justify one another.
-/

namespace ComicStream.Table

variable {Row Key Value : Type*}

theorem eq_of_key_eq {key : Row → Key} {rows : List Row} (h : (rows.map key).Nodup)
    {first second : Row} (hfirst : first ∈ rows) (hsecond : second ∈ rows)
    (hkey : key first = key second) : first = second :=
  List.inj_on_of_nodup_map h hfirst hsecond hkey

theorem nodup_map_concat {key : Row → Key} {rows : List Row} {row : Row} (h : (rows.map key).Nodup)
    (hrow : ∀ other ∈ rows, key other ≠ key row) : ((rows ++ [row]).map key).Nodup := by
  rw [List.map_append, List.nodup_append']
  refine ⟨h, List.nodup_singleton _, ?_⟩
  simpa using hrow

theorem find?_key [DecidableEq Key] {key : Row → Key} {rows : List Row} (h : (rows.map key).Nodup)
    {row : Row} (hrow : row ∈ rows) : rows.find? (key · = key row) = some row := by
  cases hfind : rows.find? (key · = key row) with
  | none =>
    have hne := List.find?_eq_none.mp hfind row hrow
    simp at hne
  | some other =>
    have hkey : key other = key row := by simpa using List.find?_some hfind
    rw [eq_of_key_eq h (List.mem_of_find?_eq_some hfind) hrow hkey]

/-- Replace the rows whose key is `k`. -/
def updateWhere [DecidableEq Key] (key : Row → Key) (k : Key) (update : Row → Row)
    (rows : List Row) : List Row :=
  rows.map fun row ↦ if key row = k then update row else row

section Update

variable [DecidableEq Key] {key : Row → Key} {k : Key} {update : Row → Row} {rows : List Row}

theorem mem_updateWhere {row : Row} :
    row ∈ updateWhere key k update rows ↔
      (∃ old ∈ rows, key old = k ∧ update old = row) ∨ (row ∈ rows ∧ key row ≠ k) := by
  rw [updateWhere, List.mem_map]
  constructor
  · rintro ⟨old, hold, hrow⟩
    by_cases hkey : key old = k
    · rw [if_pos hkey] at hrow
      exact .inl ⟨old, hold, hkey, hrow⟩
    · rw [if_neg hkey] at hrow
      rw [← hrow]
      exact .inr ⟨hold, hkey⟩
  · rintro (⟨old, hold, hkey, hrow⟩ | ⟨hrow, hkey⟩)
    · exact ⟨old, hold, by rw [if_pos hkey, hrow]⟩
    · exact ⟨row, hrow, if_neg hkey⟩

theorem mem_updateWhere_of_mem {column : Row → Value} (hkeys : (rows.map key).Nodup)
    (hcolumn : (rows.map column).Nodup) {old row : Row} (hold : old ∈ rows) :
    row ∈ updateWhere key (key old) update rows ↔
      row = update old ∨ row ∈ rows ∧ column row ≠ column old := by
  have hsame {other : Row} (hother : other ∈ rows) :
      key other = key old ↔ column other = column old := by
    constructor
    · intro h
      rw [eq_of_key_eq hkeys hother hold h]
    · intro h
      rw [eq_of_key_eq hcolumn hother hold h]
  rw [mem_updateWhere]
  constructor
  · rintro (⟨other, hother, hkey, rfl⟩ | ⟨hrow, hne⟩)
    · left
      rw [eq_of_key_eq hkeys hother hold hkey]
    · right
      exact ⟨hrow, fun h ↦ hne ((hsame hrow).mpr h)⟩
  · rintro (rfl | ⟨hrow, hne⟩)
    · left
      exact ⟨old, hold, rfl, rfl⟩
    · right
      exact ⟨hrow, fun h ↦ hne ((hsame hrow).mp h)⟩

theorem map_updateWhere {column : Row → Value}
    (h : ∀ row ∈ rows, key row = k → column (update row) = column row) :
    (updateWhere key k update rows).map column = rows.map column := by
  rw [updateWhere, List.map_map]
  apply List.map_congr_left
  intro row hrow
  rw [Function.comp_apply]
  split
  · next hkey => exact h row hrow hkey
  · rfl

end Update

section Settle

variable (keeps : List Row → Row → Bool)

/-- One round: drop the rows that the present rows do not justify. -/
def settleRound (rows : List Row) : List Row := rows.filter (keeps rows)

/-- As many rounds as there are rows. -/
def settle (rows : List Row) : List Row := (settleRound keeps)^[rows.length] rows

variable {keeps} {rows : List Row}

theorem iterate_settleRound_sublist (rounds : ℕ) :
    ((settleRound keeps)^[rounds] rows).Sublist rows := by
  induction rounds generalizing rows with
  | zero => exact List.Sublist.refl _
  | succ rounds ih => exact ih.trans List.filter_sublist

theorem settle_sublist : (settle keeps rows).Sublist rows := iterate_settleRound_sublist _

/-- Enough rounds leave nothing to drop. -/
theorem settleRound_iterate_eq {rounds : ℕ} (h : rows.length ≤ rounds) :
    settleRound keeps ((settleRound keeps)^[rounds] rows) = (settleRound keeps)^[rounds] rows := by
  induction rounds generalizing rows with
  | zero =>
    rw [List.length_eq_zero_iff.mp (Nat.le_zero.mp h)]
    rfl
  | succ rounds ih =>
    by_cases hfixed : settleRound keeps rows = rows
    · rw [Function.iterate_fixed hfixed, hfixed]
    · rw [Function.iterate_succ_apply]
      apply ih
      have hle := (@List.filter_sublist _ (keeps rows) rows).length_le
      have hne : (settleRound keeps rows).length ≠ rows.length := by
        intro hlength
        exact hfixed (List.filter_sublist.eq_of_length hlength)
      rw [settleRound] at hne ⊢
      omega

/-- Every row that is left is justified by the rows that are left. -/
theorem keeps_of_mem_settle {row : Row} (h : row ∈ settle keeps rows) :
    keeps (settle keeps rows) row = true := by
  have hfixed := @settleRound_iterate_eq Row keeps rows rows.length (Nat.le_refl _)
  rw [← settle] at hfixed
  rw [← hfixed, settleRound] at h
  exact (List.mem_filter.mp h).2

theorem settle_eq_self (h : ∀ row ∈ rows, keeps rows row = true) : settle keeps rows = rows := by
  have hround : settleRound keeps rows = rows := List.filter_eq_self.mpr h
  exact Function.iterate_fixed hround rows.length

/-- Rows that justify one another stay. -/
theorem mem_settle {good : Row → Prop}
    (hgood : ∀ kept, kept.Sublist rows → (∀ row ∈ rows, good row → row ∈ kept) →
      ∀ row ∈ rows, good row → keeps kept row = true) {row : Row} (hrow : row ∈ rows)
    (h : good row) : row ∈ settle keeps rows := by
  have hrounds (rounds : ℕ) : ∀ row ∈ rows, good row → row ∈ (settleRound keeps)^[rounds] rows := by
    induction rounds with
    | zero => exact fun row hrow _ ↦ hrow
    | succ rounds ih =>
      intro row hrow h
      rw [Function.iterate_succ_apply', settleRound, List.mem_filter]
      exact ⟨ih row hrow h, hgood _ (iterate_settleRound_sublist rounds) ih row hrow h⟩
  exact hrounds _ row hrow h

theorem settle_map {Other : Type*} {view : Row → Other} {keeps' : List Other → Other → Bool}
    (h : ∀ rows row, keeps' (rows.map view) (view row) = keeps rows row) (rows : List Row) :
    (settle keeps rows).map view = settle keeps' (rows.map view) := by
  have hround (rows : List Row) :
      (settleRound keeps rows).map view = settleRound keeps' (rows.map view) := by
    rw [settleRound, settleRound, List.filter_map]
    congr 2
    funext row
    exact (h rows row).symm
  rw [settle, settle, List.length_map]
  exact (Function.Semiconj.iterate_right hround rows.length).eq rows

end Settle

end ComicStream.Table
