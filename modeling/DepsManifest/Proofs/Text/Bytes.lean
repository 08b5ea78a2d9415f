import DepsManifest.Text.Bytes
import Mathlib.Data.List.Basic
/-! # Characters among bytes

A scanner that works on the bytes of a text and a reader that works on its characters are compared
through two facts:

  * a character of the first half of a byte's range is one byte, and is found among the bytes of a
    text where it is in the text (`Text.getElem?_bytes_zero`, `Text.pair_bytes_iff`). The bytes of
    every other character are in the second half (`Text.le_of_mem_utf8EncodeChar`), so none of them
    is taken for one of the first half;
  * a text can be cut between any two of its parts, at the number of bytes of the first, and nowhere
    else (`Text.cut?_eq_some_iff`). To cut at a number of bytes is therefore to be between two
    characters.

After the first byte of a character the scanner may stand in the middle of it, and sees bytes of the
second half until it is over (`exists_utf8EncodeChar`).
-/
namespace DepsManifest.Text

variable {c e : Char} {cs before after : List Char} {n : Nat}

theorem bytes_cons (c : Char) (cs : List Char) :
    bytes (c :: cs) = String.utf8EncodeChar c ++ bytes cs := rfl

theorem bytes_append (cs ds : List Char) : bytes (cs ++ ds) = bytes cs ++ bytes ds :=
  List.flatMap_append

theorem length_bytes (cs : List Char) : (bytes cs).length = byteLength cs := by
  induction cs with
  | nil => rfl
  | cons c cs ih =>
      rw [bytes_cons, List.length_append, String.length_utf8EncodeChar, ih, byteLength]

theorem byteLength_append (cs ds : List Char) :
    byteLength (cs ++ ds) = byteLength cs + byteLength ds := by
  rw [← length_bytes, bytes_append, List.length_append, length_bytes, length_bytes]

/-! ## Bytes of characters -/

theorem utf8EncodeChar_of_lt (h : c.toNat < 128) : String.utf8EncodeChar c = [c.toUInt8] := by
  have hsmall : c.val.toNat ≤ 127 := Nat.le_of_lt_succ h
  rw [String.utf8EncodeChar]
  exact if_pos hsmall

theorem utf8Size_of_lt (h : c.toNat < 128) : c.utf8Size = 1 := by
  rw [← String.length_utf8EncodeChar, utf8EncodeChar_of_lt h]
  rfl

theorem le_of_mem_utf8EncodeChar (h : 128 ≤ c.toNat) {b : UInt8}
    (hb : b ∈ String.utf8EncodeChar c) : 128 ≤ b.toNat := by
  have hlarge : ¬c.val.toNat ≤ 127 := Nat.not_le_of_lt h
  have hbyte : ∀ {m : Nat}, 128 ≤ m → m < 256 → 128 ≤ (UInt8.ofNat m).toNat := by
    intro m hlow hhigh
    rwa [UInt8.toNat_ofNat', Nat.mod_eq_of_lt hhigh]
  simp only [String.utf8EncodeChar, if_neg hlarge] at hb
  split_ifs at hb <;> simp only [List.mem_cons, List.not_mem_nil, or_false] at hb
  · rcases hb with rfl | rfl <;> exact hbyte (by omega) (by omega)
  · rcases hb with rfl | rfl | rfl <;> exact hbyte (by omega) (by omega)
  · rcases hb with rfl | rfl | rfl | rfl <;> exact hbyte (by omega) (by omega)

theorem toNat_toUInt8 (h : c.toNat < 128) : c.toUInt8.toNat = c.toNat := by
  show c.val.toUInt8.toNat = c.val.toNat
  rw [UInt32.toNat_toUInt8]
  exact Nat.mod_eq_of_lt (Nat.lt_trans h (by decide))

theorem toUInt8_inj (hc : c.toNat < 128) (he : e.toNat < 128) : c.toUInt8 = e.toUInt8 ↔ c = e := by
  refine ⟨fun h => ?_, congrArg _⟩
  have hnat := congrArg UInt8.toNat h
  rw [toNat_toUInt8 hc, toNat_toUInt8 he] at hnat
  exact Char.toNat_inj.mp hnat

/-- A character that is one byte is the first byte of a text exactly if it is the first character.
-/
theorem getElem?_bytes_zero (he : e.toNat < 128) (cs : List Char) :
    (bytes cs)[0]? = some e.toUInt8 ↔ cs.head? = some e := by
  cases cs with
  | nil => exact ⟨nofun, nofun⟩
  | cons c cs =>
      rw [bytes_cons, List.head?_cons, Option.some.injEq]
      by_cases hc : c.toNat < 128
      · rw [utf8EncodeChar_of_lt hc, List.singleton_append, List.getElem?_cons_zero,
          Option.some.injEq]
        exact toUInt8_inj hc he
      · have hbytes : ∀ b ∈ String.utf8EncodeChar c, 128 ≤ b.toNat :=
          fun b hb => le_of_mem_utf8EncodeChar (Nat.le_of_not_lt hc) hb
        obtain ⟨b, more, hmore⟩ :=
          List.exists_cons_of_ne_nil (String.utf8EncodeChar_ne_nil (c := c))
        rw [hmore, List.cons_append, List.getElem?_cons_zero, Option.some.injEq]
        refine iff_of_false (fun heq => ?_) fun heq => hc (heq ▸ he)
        have hb := hbytes b (hmore ▸ List.mem_cons_self)
        rw [heq, toNat_toUInt8 he] at hb
        exact Nat.not_le_of_lt he hb

theorem bytes_cons_of_lt (h : c.toNat < 128) (cs : List Char) :
    bytes (c :: cs) = c.toUInt8 :: bytes cs := by
  rw [bytes_cons, utf8EncodeChar_of_lt h]
  rfl

theorem exists_utf8EncodeChar (c : Char) :
    ∃ b more, String.utf8EncodeChar c = b :: more ∧ ∀ x ∈ more, 128 ≤ x.toNat := by
  by_cases hc : c.toNat < 128
  · exact ⟨_, [], utf8EncodeChar_of_lt hc, nofun⟩
  · obtain ⟨b, more, hmore⟩ := List.exists_cons_of_ne_nil (String.utf8EncodeChar_ne_nil (c := c))
    refine ⟨b, more, hmore, fun x hx => le_of_mem_utf8EncodeChar (Nat.le_of_not_lt hc) ?_⟩
    rw [hmore]
    exact List.mem_cons_of_mem b hx

/-- Two characters that are one byte each are found among bytes where they are in the text. -/
theorem pair_bytes_iff {f : Char} (he : e.toNat < 128) (hf : f.toNat < 128) (cs : List Char) :
    (bytes cs)[0]? = some e.toUInt8 ∧ (bytes cs)[1]? = some f.toUInt8 ↔ [e, f] <+: cs := by
  rw [getElem?_bytes_zero he]
  cases cs with
  | nil => exact iff_of_false (fun h => nomatch h.1) fun h => nomatch List.prefix_nil.mp h
  | cons c cs =>
      rw [List.head?_cons, Option.some.injEq, List.cons_prefix_cons, eq_comm (a := e)]
      refine and_congr_right fun hc => ?_
      subst hc
      rw [bytes_cons_of_lt he, List.getElem?_cons_succ, getElem?_bytes_zero hf]
      cases cs with
      | nil => exact iff_of_false nofun fun h => nomatch List.prefix_nil.mp h
      | cons c' cs =>
          rw [List.head?_cons, Option.some.injEq, List.cons_prefix_cons, eq_comm]
          exact (and_iff_left List.nil_prefix).symm

/-! ## Cutting -/

theorem cut?_eq_some_iff :
    cut? n cs = some (before, after) ↔ cs = before ++ after ∧ byteLength before = n := by
  constructor
  · intro h
    induction cs generalizing n before with
    | nil =>
        cases n with
        | zero =>
            cases h
            exact ⟨rfl, rfl⟩
        | succ n => cases h
    | cons c cs ih =>
        cases n with
        | zero =>
            cases h
            exact ⟨rfl, rfl⟩
        | succ n =>
            rw [cut?] at h
            split at h
            · rename_i hfits
              obtain ⟨⟨before, after⟩, hcut, heq⟩ := Option.map_eq_some_iff.mp h
              cases heq
              obtain ⟨rfl, hlength⟩ := ih hcut
              refine ⟨rfl, ?_⟩
              rw [byteLength, hlength]
              omega
            · cases h
  · rintro ⟨rfl, rfl⟩
    induction before with
    | nil => rw [byteLength, List.nil_append, cut?]
    | cons c before ih =>
        obtain ⟨k, hk⟩ := Nat.exists_eq_succ_of_ne_zero (Nat.pos_iff_ne_zero.mp c.utf8Size_pos)
        have hlength : byteLength (c :: before) = k + byteLength before + 1 := by
          rw [byteLength, hk]
          omega
        have hrest : k + byteLength before + 1 - c.utf8Size = byteLength before := by omega
        rw [hlength, List.cons_append, cut?, if_pos (by omega), hrest, ih]
        rfl

theorem cut?_append (before after : List Char) :
    cut? (byteLength before) (before ++ after) = some (before, after) :=
  cut?_eq_some_iff.mpr ⟨rfl, rfl⟩

theorem slice?_append (before part after : List Char) :
    slice? (byteLength before) (byteLength (before ++ part))
      (before ++ part ++ after) = some part := by
  rw [slice?, cut?_append]
  show (cut? (byteLength before) (before ++ part) >>= _) = _
  rw [cut?_append]
  rfl

end DepsManifest.Text
