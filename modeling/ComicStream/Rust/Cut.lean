import ComicStream.Rust.Text

/-!
# Text that is cut at a byte

A prefix of well-formed UTF-8 ends between two characters or within one. Decoded
as `from_utf8_lossy` does, the characters before the cut stay, and the bytes that
are left of a character together become one replacement character.
-/

namespace ComicStream.Rust

/-- `char::REPLACEMENT_CHARACTER`. -/
def replacement : Char := Char.ofNat 0xFFFD

theorem exists_append_of_decodeChar? {bytes : List UInt8} {c : Char}
    (h : decodeChar? bytes = some c) : ∃ rest, bytes = String.utf8EncodeChar c ++ rest := by
  obtain ⟨rest, hrest⟩ := ByteArray.exists_of_utf8DecodeChar?_eq_some h
  refine ⟨rest.data.toList, ?_⟩
  have hlist := congrArg (fun bytes : ByteArray ↦ bytes.data.toList) hrest
  simpa [List.toList_data_toByteArray] using hlist

theorem decodeChar?_take {c : Char} {kept : ℕ} (h : kept < c.utf8Size) :
    decodeChar? ((String.utf8EncodeChar c).take kept) = none := by
  rw [Option.eq_none_iff_forall_not_mem]
  intro other hother
  obtain ⟨rest, hrest⟩ := exists_append_of_decodeChar? hother
  have hwhole : String.utf8EncodeChar c =
      String.utf8EncodeChar other ++ (rest ++ (String.utf8EncodeChar c).drop kept) := by
    rw [← List.append_assoc, ← hrest, List.take_append_drop]
  have hsame : c = other := by
    have hc := decodeChar?_encode_append c []
    rw [List.append_nil, hwhole, decodeChar?_encode_append] at hc
    exact (Option.some.inj hc).symm
  have hlength := congrArg List.length hrest
  rw [List.length_append, List.length_take, String.length_utf8EncodeChar,
    String.length_utf8EncodeChar, hsame] at hlength
  rw [hsame] at h
  omega

theorem isContinuation_iff {b : UInt8} :
    isContinuation b = true ↔ 0x80 ≤ b.toNat ∧ b.toNat ≤ 0xBF := by
  simp [isContinuation, UInt8.le_iff_toNat_le]

theorem mayFollow_of_toNat {lead second : UInt8} (hlead : 0xC2 ≤ lead.toNat ∧ lead.toNat ≤ 0xF4)
    (hsecond : 0x80 ≤ second.toNat ∧ second.toNat ≤ 0xBF)
    (he0 : lead.toNat = 0xE0 → 0xA0 ≤ second.toNat) (hed : lead.toNat = 0xED → second.toNat ≤ 0x9F)
    (hf0 : lead.toNat = 0xF0 → 0x90 ≤ second.toNat)
    (hf4 : lead.toNat = 0xF4 → second.toNat ≤ 0x8F) : mayFollow lead second = true := by
  have hlow : ¬lead < 0xC2 := by
    simp only [UInt8.lt_iff_toNat_lt, UInt8.reduceToNat]
    omega
  have hbounds {low high : UInt8} (hle : low.toNat ≤ second.toNat ∧ second.toNat ≤ high.toNat) :
      (low ≤ second && second ≤ high) = true := by
    simpa [UInt8.le_iff_toNat_le] using hle
  have htoNat {other : UInt8} (h : (lead == other) = true) : lead.toNat = other.toNat :=
    congrArg UInt8.toNat (beq_iff_eq.mp h)
  rw [mayFollow, if_neg hlow]
  split
  · next h => exact hbounds ⟨he0 (htoNat h), hsecond.2⟩
  split
  · next h => exact hbounds ⟨hsecond.1, hed (htoNat h)⟩
  split
  · next h => exact hbounds ⟨hf0 (htoNat h), hsecond.2⟩
  split
  · next h => exact hbounds ⟨hsecond.1, hf4 (htoNat h)⟩
  · next hne =>
    have hlast : lead.toNat ≠ 0xF4 := fun heq ↦ hne (beq_iff_eq.mpr (UInt8.toNat_inj.mp heq))
    have hlt : lead < 0xF4 := UInt8.lt_iff_toNat_lt.mpr (lt_of_le_of_ne hlead.2 hlast)
    rw [decide_eq_true hlt, isContinuation_iff.mpr hsecond]
    rfl

/-- What is left of a character counts as one ill-formed sequence. -/
theorem brokenLength_take {c : Char} {kept : ℕ} (hpos : 0 < kept) (h : kept < c.utf8Size) :
    brokenLength ((String.utf8EncodeChar c).take kept) = kept := by
  have hvalid : c.val.toNat < 0xD800 ∨ 0xDFFF < c.val.toNat ∧ c.val.toNat < 0x110000 := c.valid
  rw [← String.length_utf8EncodeChar] at h
  revert h
  fun_cases String.utf8EncodeChar c with
  | case1 v hone =>
    intro h
    rw [List.length_singleton] at h
    omega
  | case2 v hone htwo =>
    intro h
    simp only [List.length_cons, List.length_nil] at h
    obtain rfl : kept = 1 := by omega
    rfl
  | case3 v hone htwo hthree =>
    intro h
    simp only [List.length_cons, List.length_nil] at h
    have hfollow : mayFollow (UInt8.ofNat (v / 4096 % 16 + 0xe0))
        (UInt8.ofNat (v / 64 % 64 + 0x80)) = true := by
      apply mayFollow_of_toNat <;> simp only [UInt8.toNat_ofNat'] <;> omega
    obtain rfl | rfl : kept = 1 ∨ kept = 2 := by omega
    · rfl
    · simp only [List.take, brokenLength]
      rw [if_pos hfollow]
      simp
  | case4 v hone htwo hthree =>
    intro h
    simp only [List.length_cons, List.length_nil] at h
    have hfollow : mayFollow (UInt8.ofNat (v / 262144 % 8 + 0xf0))
        (UInt8.ofNat (v / 4096 % 64 + 0x80)) = true := by
      apply mayFollow_of_toNat <;> simp only [UInt8.toNat_ofNat'] <;> omega
    obtain rfl | rfl | rfl : kept = 1 ∨ kept = 2 ∨ kept = 3 := by omega
    · rfl
    · simp only [List.take, brokenLength]
      rw [if_pos hfollow]
      simp
    · simp only [List.take, brokenLength]
      rw [if_pos hfollow, if_pos]
      rw [Bool.and_eq_true, List.head?_cons, Option.any_some, isContinuation_iff]
      simp only [decide_eq_true_eq, UInt8.le_iff_toNat_le, UInt8.toNat_ofNat', UInt8.reduceToNat]
      omega

theorem fromUtf8Lossy_take {c : Char} {kept : ℕ} (hpos : 0 < kept) (h : kept < c.utf8Size) :
    fromUtf8Lossy ((String.utf8EncodeChar c).take kept) = [replacement] := by
  have hlength : ((String.utf8EncodeChar c).take kept).length = kept := by
    rw [List.length_take, String.length_utf8EncodeChar]
    omega
  obtain ⟨fuel, rfl⟩ : ∃ fuel, kept = fuel + 1 := ⟨_, (Nat.sub_add_cancel hpos).symm⟩
  have hne : (String.utf8EncodeChar c).take (fuel + 1) ≠ [] := by
    intro hnil
    rw [hnil] at hlength
    simp at hlength
  rw [fromUtf8Lossy, hlength, lossyFrom.eq_3 _ _ hne, decodeChar?_take h]
  dsimp only
  rw [brokenLength_take hpos h, List.drop_of_length_le hlength.le]
  cases fuel <;> rfl

/-- After `size` bytes, a text is in the middle of `c`: `kept` bytes of it are among them, and the
characters of `before` are. -/
structure CutsChar (size : ℕ) (text before : List Char) (c : Char) (kept : ℕ) : Prop where
  isPrefix : before ++ [c] <+: text
  kept_pos : 0 < kept
  kept_lt : kept < c.utf8Size
  length_eq : (utf8 before).length + kept = size

/-- A cut falls between two characters, within one, or behind the text. -/
theorem exists_cut (size : ℕ) (text : List Char) :
    (∃ shown, shown <+: text ∧ (utf8 text).take size = utf8 shown) ∨
      ∃ before c kept, CutsChar size text before c kept := by
  induction text generalizing size with
  | nil => exact .inl ⟨[], List.prefix_rfl, by simp [utf8]⟩
  | cons c text ih =>
    have hlength : (String.utf8EncodeChar c).length = c.utf8Size := String.length_utf8EncodeChar c
    by_cases hfits : c.utf8Size ≤ size
    · have htake : (utf8 (c :: text)).take size =
          String.utf8EncodeChar c ++ (utf8 text).take (size - c.utf8Size) := by
        rw [utf8_cons, List.take_append, hlength, List.take_of_length_le (hlength.le.trans hfits)]
      rcases ih (size - c.utf8Size) with ⟨shown, hshown, heq⟩ | ⟨before, d, kept, hcut⟩
      · refine .inl ⟨c :: shown, (List.cons_prefix_cons).mpr ⟨rfl, hshown⟩, ?_⟩
        rw [htake, heq, utf8_cons]
      · refine .inr ⟨c :: before, d, kept, ?_, hcut.kept_pos, hcut.kept_lt, ?_⟩
        · exact (List.cons_prefix_cons).mpr ⟨rfl, hcut.isPrefix⟩
        · have hsum := hcut.length_eq
          rw [utf8_cons, List.length_append, hlength]
          omega
    · rcases Nat.eq_zero_or_pos size with rfl | hpos
      · exact .inl ⟨[], List.nil_prefix, by simp [utf8]⟩
      · refine .inr ⟨[], c, size, ?_, hpos, by omega, by simp [utf8]⟩
        exact (List.cons_prefix_cons).mpr ⟨rfl, List.nil_prefix⟩

variable {size kept : ℕ} {text before : List Char} {c : Char}

theorem CutsChar.take_eq (h : CutsChar size text before c kept) :
    (utf8 text).take size = utf8 before ++ (String.utf8EncodeChar c).take kept := by
  obtain ⟨after, rfl⟩ := h.isPrefix
  have hlt : kept ≤ (String.utf8EncodeChar c).length := by
    rw [String.length_utf8EncodeChar]
    exact h.kept_lt.le
  rw [List.append_assoc, List.singleton_append, utf8_append, utf8_cons, ← h.length_eq,
    List.take_length_add_append, List.take_append_of_le_length hlt]

theorem CutsChar.lt_length (h : CutsChar size text before c kept) : size < (utf8 text).length := by
  obtain ⟨after, rfl⟩ := h.isPrefix
  have hkept := h.kept_lt
  have hsum := h.length_eq
  rw [List.append_assoc, List.singleton_append, utf8_append, utf8_cons, List.length_append,
    List.length_append, String.length_utf8EncodeChar]
  omega

theorem CutsChar.fromUtf8Lossy_take (h : CutsChar size text before c kept) :
    fromUtf8Lossy ((utf8 text).take size) = before ++ [replacement] := by
  rw [h.take_eq, fromUtf8Lossy_utf8_append, Rust.fromUtf8Lossy_take h.kept_pos h.kept_lt]

end ComicStream.Rust
