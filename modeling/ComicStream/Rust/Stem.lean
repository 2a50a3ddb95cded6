import ComicStream.Rust.Cut
import ComicStream.Rust.Path

/-!
# The text of a file stem

An ASCII byte is a character of its own wherever it stands, also between bytes that
are no text. So a name that is split at its last dot has the text that is split at
its last dot, and the text of a stem can be read off the text of the name.
-/

namespace ComicStream.Rust

theorem lt_of_mem_tail_utf8EncodeChar {c : Char} {b : UInt8}
    (h : b ∈ (String.utf8EncodeChar c).tail) : 0x80 ≤ b.toNat := by
  have hlow (n : ℕ) : 0x80 ≤ (UInt8.ofNat (n % 64 + 0x80)).toNat := by
    simp only [UInt8.toNat_ofNat']
    omega
  revert h
  fun_cases String.utf8EncodeChar c with
  | case1 v hone => simp
  | case2 v hone htwo =>
    simp only [List.tail_cons, List.mem_singleton]
    rintro rfl
    exact hlow _
  | case3 v hone htwo hthree =>
    simp only [List.tail_cons, List.mem_cons, List.not_mem_nil, or_false]
    rintro (rfl | rfl)
    · exact hlow _
    · exact hlow _
  | case4 v hone htwo hthree =>
    simp only [List.tail_cons, List.mem_cons, List.not_mem_nil, or_false]
    rintro (rfl | rfl | rfl)
    · exact hlow _
    · exact hlow _
    · exact hlow _

variable {ascii : UInt8} {bytes rest : List UInt8}

theorem decodeChar?_append (hascii : ascii.toNat < 0x80) (hne : bytes ≠ []) :
    decodeChar? (bytes ++ ascii :: rest) = decodeChar? bytes := by
  cases hdecoded : decodeChar? (bytes ++ ascii :: rest) with
  | some c =>
    obtain ⟨after, hafter⟩ := exists_append_of_decodeChar? hdecoded
    rcases List.append_eq_append_iff.mp hafter with ⟨more, hc, hmore⟩ | ⟨more, hbytes, -⟩
    · cases more with
      | nil =>
        rw [List.append_nil] at hc
        rw [← hc, ← List.append_nil (String.utf8EncodeChar c), decodeChar?_encode_append]
      | cons b more =>
        obtain ⟨rfl, -⟩ := List.cons.inj hmore
        have hmem : ascii ∈ (String.utf8EncodeChar c).tail := by
          rw [hc, List.tail_append_of_ne_nil hne]
          simp
        have hhigh := lt_of_mem_tail_utf8EncodeChar hmem
        omega
    · rw [hbytes, decodeChar?_encode_append]
  | none =>
    rw [eq_comm, Option.eq_none_iff_forall_not_mem]
    intro c hc
    obtain ⟨after, rfl⟩ := exists_append_of_decodeChar? hc
    rw [List.append_assoc, decodeChar?_encode_append] at hdecoded
    exact Option.some_ne_none c hdecoded

theorem not_isContinuation (hascii : ascii.toNat < 0x80) : isContinuation ascii = false := by
  rw [Bool.eq_false_iff, ne_eq, isContinuation_iff]
  omega

theorem not_mayFollow (hascii : ascii.toNat < 0x80) (lead : UInt8) :
    mayFollow lead ascii = false := by
  have hle {low : UInt8} (hlow : 0x80 ≤ low.toNat) : decide (low ≤ ascii) = false := by
    rw [decide_eq_false_iff_not, UInt8.le_iff_toNat_le]
    omega
  unfold mayFollow
  simp only [hle (show 0x80 ≤ (0xA0 : UInt8).toNat by decide),
    hle (show 0x80 ≤ (0x80 : UInt8).toNat by decide),
    hle (show 0x80 ≤ (0x90 : UInt8).toNat by decide), not_isContinuation hascii, Bool.false_and,
    Bool.and_false, ite_self]

theorem brokenLength_append (hascii : ascii.toNat < 0x80) (hne : bytes ≠ []) :
    brokenLength (bytes ++ ascii :: rest) = brokenLength bytes ∧
      brokenLength bytes ≤ bytes.length := by
  match bytes, hne with
  | [lead], _ => simp [brokenLength, not_mayFollow hascii]
  | [lead, second], _ =>
    simp only [List.cons_append, List.nil_append, brokenLength, List.head?_cons, Option.any_some,
      not_isContinuation hascii, Bool.and_false, List.head?_nil, Option.any_none, true_and]
    split <;> simp
  | lead :: second :: third :: more, _ =>
    refine ⟨rfl, ?_⟩
    rw [brokenLength, List.length_cons, List.length_cons, List.length_cons]
    split
    · split
      · omega
      · omega
    · omega

theorem fromUtf8Lossy_of_ne_nil (hne : bytes ≠ []) :
    fromUtf8Lossy bytes = match decodeChar? bytes with
      | some c => c :: fromUtf8Lossy (bytes.drop c.utf8Size)
      | none => Char.ofNat 0xFFFD :: fromUtf8Lossy (bytes.drop (brokenLength bytes)) := by
  obtain ⟨size, hsize⟩ : ∃ size, bytes.length = size + 1 :=
    ⟨_, (Nat.sub_add_cancel (List.length_pos_iff.mpr hne)).symm⟩
  have hdrop {count : ℕ} (hcount : 0 < count) : (bytes.drop count).length ≤ size := by
    rw [List.length_drop]
    omega
  rw [fromUtf8Lossy, hsize, lossyFrom.eq_3 _ _ hne]
  cases decodeChar? bytes with
  | some c =>
    dsimp only
    rw [lossyFrom_of_le (hdrop c.utf8Size_pos)]
  | none =>
    dsimp only
    rw [lossyFrom_of_le (hdrop (brokenLength_pos bytes))]

theorem toNat_toUInt8 {c : Char} (hascii : c.toNat < 0x80) : c.toUInt8.toNat = c.toNat := by
  change c.val.toNat % 2 ^ 8 = c.val.toNat
  have hsmall : c.val.toNat < 0x80 := hascii
  omega

/-- An ASCII byte is a character of its own, whatever stands before and after it. -/
theorem fromUtf8Lossy_append_cons {c : Char} (hascii : c.toNat < 0x80) (bytes rest : List UInt8) :
    fromUtf8Lossy (bytes ++ c.toUInt8 :: rest) =
      fromUtf8Lossy bytes ++ c :: fromUtf8Lossy rest := by
  have hbyte : c.toUInt8.toNat < 0x80 := by rwa [toNat_toUInt8 hascii]
  induction hsize : bytes.length using Nat.strongRecOn generalizing bytes with
  | _ size ih =>
    by_cases hne : bytes = []
    · subst hne
      have happend := fromUtf8Lossy_utf8_append [c] rest
      rw [utf8_eq_map (by simpa using hascii)] at happend
      exact happend
    · have hlonger : bytes ++ c.toUInt8 :: rest ≠ [] := by simp
      have hshorter {count : ℕ} (hpos : 0 < count) (hle : count ≤ bytes.length) :
          fromUtf8Lossy ((bytes ++ c.toUInt8 :: rest).drop count) =
            fromUtf8Lossy (bytes.drop count) ++ c :: fromUtf8Lossy rest := by
        rw [List.drop_append_of_le_length hle]
        exact ih _ (by rw [List.length_drop]; omega) _ rfl
      obtain ⟨hbroken, hle⟩ := @brokenLength_append c.toUInt8 bytes rest hbyte hne
      rw [fromUtf8Lossy_of_ne_nil hlonger, fromUtf8Lossy_of_ne_nil hne,
        decodeChar?_append hbyte hne, hbroken]
      cases hdecoded : decodeChar? bytes with
      | some d =>
        obtain ⟨after, hafter⟩ := exists_append_of_decodeChar? hdecoded
        have hsizes := congrArg List.length hafter
        rw [List.length_append, String.length_utf8EncodeChar] at hsizes
        dsimp only
        rw [hshorter d.utf8Size_pos (by omega), List.cons_append]
      | none =>
        dsimp only
        rw [hshorter (brokenLength_pos bytes) hle, List.cons_append]

theorem mem_of_mem_fromUtf8Lossy {c : Char} (hascii : c.toNat < 0x80) {bytes : List UInt8}
    (h : c ∈ fromUtf8Lossy bytes) : c.toUInt8 ∈ bytes := by
  induction hsize : bytes.length using Nat.strongRecOn generalizing bytes with
  | _ size ih =>
    by_cases hne : bytes = []
    · subst hne
      simp [fromUtf8Lossy, lossyFrom] at h
    · have hpos := List.length_pos_iff.mpr hne
      have hdropped {count : ℕ} (hcount : 0 < count) (hmem : c ∈ fromUtf8Lossy (bytes.drop count)) :
          c.toUInt8 ∈ bytes := by
        apply List.mem_of_mem_drop
        exact ih _ (by rw [List.length_drop]; omega) hmem rfl
      rw [fromUtf8Lossy_of_ne_nil hne] at h
      split at h
      · next d hdecoded =>
        rcases List.mem_cons.mp h with rfl | h
        · obtain ⟨after, rfl⟩ := exists_append_of_decodeChar? hdecoded
          rw [String.utf8EncodeChar_eq_singleton (utf8Size_eq_one hascii)]
          exact List.mem_cons_self
        · exact hdropped d.utf8Size_pos h
      · rcases List.mem_cons.mp h with rfl | h
        · exact absurd hascii (by decide)
        · exact hdropped (brokenLength_pos bytes) h

/-- The text of a name up to its last dot, unless that is its first character. -/
def stemText (text : List Char) : List Char :=
  let extension := (text.reverse.takeWhile (· ≠ '.')).reverse
  let stem := text.take (text.length - extension.length - 1)
  if stem = [] then text else stem

theorem exists_last {α : Type} [DecidableEq α] (item : α) (items : List α) :
    item ∉ items ∨ ∃ before after, items = before ++ item :: after ∧ item ∉ after := by
  induction items with
  | nil => simp
  | cons first items ih =>
    rcases ih with hnone | ⟨before, after, rfl, hafter⟩
    · by_cases hfirst : item = first
      · exact .inr ⟨[], items, by rw [hfirst, List.nil_append], hnone⟩
      · exact .inl (by simp [hfirst, hnone])
    · exact .inr ⟨first :: before, after, rfl, hafter⟩

theorem take_before_last {α : Type} [DecidableEq α] {item : α} {items : List α}
    (h : item ∉ items) :
    items.take (items.length - (items.reverse.takeWhile (· ≠ item)).reverse.length - 1) = [] := by
  have hall : items.reverse.takeWhile (· ≠ item) = items.reverse := by
    rw [List.takeWhile_eq_self_iff]
    intro other hother
    rw [decide_eq_true_eq]
    rintro rfl
    exact h (List.mem_reverse.mp hother)
  rw [hall, List.reverse_reverse, Nat.sub_self, Nat.zero_sub, List.take_zero]

theorem take_last {α : Type} [DecidableEq α] {item : α} (before : List α) {after : List α}
    (h : item ∉ after) :
    (before ++ item :: after).take ((before ++ item :: after).length -
      ((before ++ item :: after).reverse.takeWhile (· ≠ item)).reverse.length - 1) = before := by
  have hafter : (before ++ item :: after).reverse.takeWhile (· ≠ item) = after.reverse := by
    rw [List.reverse_append, List.reverse_cons, List.append_assoc, List.singleton_append,
      List.takeWhile_append_of_pos]
    · simp
    · intro other hother
      rw [decide_eq_true_eq]
      rintro rfl
      exact h (List.mem_reverse.mp hother)
  rw [hafter, List.reverse_reverse]
  apply List.take_left'
  rw [List.length_append, List.length_cons]
  omega

/-- The text of a file stem is the stem of the name's text. -/
theorem fromUtf8Lossy_splitExtension (name : OsName) :
    fromUtf8Lossy (splitExtension name).1 = stemText (fromUtf8Lossy name) := by
  have hback {bytes : List UInt8} (hbytes : dot ∉ bytes) : '.' ∉ fromUtf8Lossy bytes :=
    fun hmem ↦ hbytes (mem_of_mem_fromUtf8Lossy (by decide) hmem)
  unfold splitExtension stemText
  dsimp only
  rcases exists_last dot name with hnone | ⟨before, after, rfl, hafter⟩
  · rw [take_before_last hnone, take_before_last (hback hnone), if_pos rfl, if_pos rfl]
  · have htext : fromUtf8Lossy (before ++ dot :: after) =
        fromUtf8Lossy before ++ '.' :: fromUtf8Lossy after :=
      @fromUtf8Lossy_append_cons '.' (by decide) before after
    rw [take_last before hafter, htext, take_last _ (hback hafter)]
    by_cases hbefore : before = []
    · subst hbefore
      rw [if_pos rfl, htext]
      rfl
    · rw [if_neg hbefore, if_neg]
      rw [fromUtf8Lossy_of_ne_nil hbefore]
      split <;> simp

end ComicStream.Rust
