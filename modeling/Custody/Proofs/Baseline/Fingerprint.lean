import Custody.Baseline.Basic
import Mathlib.Data.List.Basic

/-!
# What a fingerprint tells apart

A fingerprint is made from the texts of a diagnostic, divided by zero bytes. A text
without the character of code zero has no such byte, so the texts can be told from the
bytes as long as only the message, which is last, may have one.

Two steps remain from the bytes to the fingerprint. Writing bytes in hexadecimal loses
nothing; taking eight bytes of a digest does, and is all that can make different
diagnostics look alike (`fingerprint_eq_iff`).

So everything here but the digest is injective, and is proved to be. Of the digest
nothing is assumed, and nothing but that it is a function is used: where it matters,
results say "if the digests of these do not collide".

A capability that is not given and one that is given as the empty text have the same
identity. `Profile` has this built in, so that it is not an exception to the rule.
-/

set_option autoImplicit false

namespace Custody

/-!
## Texts as bytes

In UTF-8 the byte zero is the character of code zero and part of no other.
-/

namespace Text

def utf8 (text : String) : List UInt8 := text.toUTF8.toList

theorem toList_loop (bytes : ByteArray) (i : Nat) (read : List UInt8) :
    ByteArray.toList.loop bytes i read = read.reverse ++ bytes.data.toList.drop i := by
  fun_induction ByteArray.toList.loop bytes i read with
  | case1 i read hlt ih =>
    have hbyte :
        bytes.data.toList.drop i = bytes.get! i :: bytes.data.toList.drop (i + 1) := by
      have hget : bytes.get! i = bytes.data.toList[i] := getElem!_pos bytes.data i hlt
      rw [List.drop_eq_getElem_cons hlt, hget]
    rw [ih, hbyte, List.reverse_cons, List.append_assoc, List.singleton_append]
  | case2 i read hge =>
    have hend : bytes.data.toList.drop i = [] :=
      List.drop_eq_nil_of_le (Nat.le_of_not_lt hge)
    rw [hend, List.append_nil]

theorem toList_eq (bytes : ByteArray) : bytes.toList = bytes.data.toList := by
  simp [ByteArray.toList, toList_loop]

theorem utf8_eq (text : String) :
    utf8 text = text.toList.flatMap String.utf8EncodeChar := by
  rw [utf8, toList_eq, String.toUTF8_eq_toByteArray, ← String.utf8Encode_toList,
    List.utf8Encode, List.toList_data_toByteArray]

theorem utf8_injective {a b : String} (h : utf8 a = utf8 b) : a = b := by
  rw [utf8, utf8, toList_eq, toList_eq, Array.toList_inj] at h
  exact String.toByteArray_inj.1 (ByteArray.ext h)

theorem utf8_inj {a b : String} : utf8 a = utf8 b ↔ a = b :=
  ⟨utf8_injective, congrArg utf8⟩

/-- A text without the character of code zero. -/
def Solid (text : String) : Prop := '\x00' ∉ text.toList

instance (text : String) :
    Decidable (Solid text) := inferInstanceAs (Decidable ('\x00' ∉ text.toList))

theorem Solid.append {a b : String} (ha : Solid a) (hb : Solid b) : Solid (a ++ b) := by
  rw [Solid, String.toList_append, List.mem_append, not_or]
  exact ⟨ha, hb⟩

theorem zero_notMem_utf8EncodeChar {c : Char} (h : c ≠ '\x00') :
    0 ∉ String.utf8EncodeChar c := by
  have hcode : c.val.toNat ≠ 0 := by
    intro hzero
    exact h (Char.ext (UInt32.toNat_inj.1 hzero))
  have hbyte : ∀ n, n % 256 ≠ 0 → (0 : UInt8) ≠ UInt8.ofNat n := by
    intro n hn hzero
    have := congrArg UInt8.toNat hzero
    rw [UInt8.toNat_ofNat'] at this
    exact hn this.symm
  rw [String.utf8EncodeChar.eq_1]
  repeat' split
  all_goals
    simp only [List.mem_cons, List.not_mem_nil, or_false, not_or]
    and_intros <;> exact hbyte _ (by omega)

theorem Solid.zero_notMem {text : String} (h : Solid text) : 0 ∉ utf8 text := by
  rw [utf8_eq, List.mem_flatMap]
  rintro ⟨c, hc, hzero⟩
  refine zero_notMem_utf8EncodeChar ?_ hzero
  rintro rfl
  exact h hc

theorem Solid.takeWhile_divided {text : String} (h : Solid text) (rest : List UInt8) :
    (utf8 text ++ 0 :: rest).takeWhile (· ≠ 0) = utf8 text := by
  rw [List.takeWhile_append_of_pos]
  · simp
  · intro byte hbyte
    have hne : byte ≠ 0 := by
      rintro rfl
      exact h.zero_notMem hbyte
    simpa using hne

theorem divided_inj {a b : String} {rest rest' : List UInt8} (ha : Solid a) (hb : Solid b) :
    utf8 a ++ 0 :: rest = utf8 b ++ 0 :: rest' ↔ a = b ∧ rest = rest' := by
  constructor
  · intro h
    have hfirst : utf8 a = utf8 b := by
      rw [← ha.takeWhile_divided rest, h, hb.takeWhile_divided]
    rw [hfirst] at h
    exact ⟨utf8_injective hfirst, by simpa using h⟩
  · rintro ⟨rfl, rfl⟩
    rfl

end Text

/-! ## Bytes in hexadecimal -/

namespace Hex

theorem digit_inj {m n : Nat} (hm : m < 16) (hn : n < 16) : digit m = digit n ↔ m = n := by
  have h : ∀ m n : Fin 16, digit m = digit n ↔ m = n := by decide
  simpa using h ⟨m, hm⟩ ⟨n, hn⟩

theorem encode_inj {a b : List UInt8} : encode a = encode b ↔ a = b := by
  rw [encode, encode, String.ofList_inj]
  induction a generalizing b with
  | nil => cases b <;> simp
  | cons first rest ih =>
    cases b with
    | nil => simp
    | cons first' rest' =>
      have hfirst := first.toNat_lt
      have hfirst' := first'.toNat_lt
      simp only [List.flatMap_cons, List.cons_append, List.nil_append, List.cons.injEq, ih]
      rw [digit_inj (by omega) (by omega), digit_inj (by omega) (by omega),
        ← UInt8.toNat_inj]
      constructor
      · rintro ⟨hhigh, hlow, hrest⟩
        exact ⟨by omega, hrest⟩
      · rintro ⟨hbyte, hrest⟩
        exact ⟨by rw [hbyte], by rw [hbyte], hrest⟩

end Hex

/-! ## Identities -/

namespace Diagnostic

open Text (utf8 Solid)

theorem identity_eq (d : Diagnostic) :
    d.identity = utf8 d.location.unit
      ++ 0 :: (utf8 d.location.function ++ 0 :: (utf8 d.kind.name ++ 0 ::
      (utf8 (d.capability.getD "") ++ 0 :: utf8 d.message))) := by
  simp [identity, List.intercalate, utf8]

theorem solid_kindName (kind : Kind) : Solid kind.name := by
  cases kind <;> decide

theorem kindName_inj {kind kind' : Kind} : kind.name = kind'.name ↔ kind = kind' := by
  cases kind <;> cases kind' <;> decide

/-- In one function, the identity tells the kind, the capability and the message,
whatever the unit and the function are called. -/
theorem identity_eq_iff {d d' : Diagnostic} (hunit : d.location.unit = d'.location.unit)
    (hfunction : d.location.function = d'.location.function)
    (hd : Solid (d.capability.getD "")) (hd' : Solid (d'.capability.getD "")) :
    d.identity = d'.identity ↔
      d.kind = d'.kind ∧ d.capability.getD "" = d'.capability.getD "" ∧
      d.message = d'.message := by
  rw [identity_eq, identity_eq, hunit, hfunction, List.append_right_inj,
    List.cons_inj_right, List.append_right_inj,
    List.cons_inj_right, Text.divided_inj (solid_kindName _) (solid_kindName _),
    Text.divided_inj hd hd', kindName_inj, Text.utf8_inj]

/-- What a diagnostic says, wherever in its function it is. A capability that is not
given reads as an empty one. -/
structure Profile where
  unit : String
  function : String
  kind : Kind
  capability : String
  message : String
deriving DecidableEq

def profile (d : Diagnostic) : Profile :=
  ⟨d.location.unit, d.location.function, d.kind, d.capability.getD "", d.message⟩

/-- All that comes before the message is without zero bytes. The message may have some:
nothing comes after it that it could be confused with. -/
structure Unambiguous (d : Diagnostic) : Prop where
  unit : Solid d.location.unit
  function : Solid d.location.function
  capability : Solid (d.capability.getD "")

instance (d : Diagnostic) : Decidable d.Unambiguous :=
  decidable_of_iff (Solid d.location.unit ∧ Solid d.location.function ∧
    Solid (d.capability.getD ""))
    ⟨fun ⟨hunit, hfunction, hcapability⟩ => ⟨hunit, hfunction, hcapability⟩,
      fun h => ⟨h.unit, h.function, h.capability⟩⟩

theorem identity_eq_iff_profile {d d' : Diagnostic} (hd : d.Unambiguous)
    (hd' : d'.Unambiguous) :
    d.identity = d'.identity ↔ d.profile = d'.profile := by
  rw [identity_eq, identity_eq, Text.divided_inj hd.unit hd'.unit,
    Text.divided_inj hd.function hd'.function,
    Text.divided_inj (solid_kindName _) (solid_kindName _),
    Text.divided_inj hd.capability hd'.capability, kindName_inj, Text.utf8_inj]
  exact Iff.of_eq (Profile.mk.injEq ..).symm

theorem fingerprint_eq_iff {d d' : Diagnostic} :
    d.fingerprint = d'.fingerprint ↔
      (Sha256.digest d.identity).take 8 = (Sha256.digest d'.identity).take 8 :=
  Hex.encode_inj

end Diagnostic

end Custody
