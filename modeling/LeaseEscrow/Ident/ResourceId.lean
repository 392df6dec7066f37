import LeaseEscrow.Text.Bytes

/-!
# Resource ids

A resource id has 3 to 64 letters and digits and starts with a letter. Ids made from the
counter are `mn` and a number.
-/

namespace LeaseEscrow

namespace ResourceId

def isId (cs : List Char) : Bool :=
  3 ≤ cs.length && cs.length ≤ 64 && cs.head?.any Char.isAlpha && cs.all Char.isAlphanum

end ResourceId

structure ResourceId where
  text : String
  valid : ResourceId.isId text.toList = true
deriving DecidableEq

namespace ResourceId

instance : ToString ResourceId := ⟨text⟩

/-- Ids are ordered as their texts. -/
instance : Ord ResourceId := ⟨fun a b => compare a.text b.text⟩

def ofText? (text : String) : Option ResourceId :=
  if h : isId text.toList = true then some ⟨text, h⟩ else none

def bytes (id : ResourceId) : List UInt8 := Text.utf8 id.text

/-- The id that these bytes name, if they name one. -/
def ofBytes? (bytes : List UInt8) : Option ResourceId := (Text.ofAscii? bytes).bind ofText?

/-! ## Counted ids -/

theorem isId_counted (n : Nat) (h : n < 100000000000000000000) :
    isId ('m' :: 'n' :: Nat.toDigits 10 n) = true := by
  have hlen : (Nat.toDigits 10 n).length ≤ 20 :=
    (Nat.length_toDigits_le_iff (by decide) (by decide)).2 h
  have hpos : 0 < (Nat.toDigits 10 n).length := Nat.length_toDigits_pos
  have hall : (Nat.toDigits 10 n).all Char.isAlphanum = true := by
    rw [List.all_eq_true]
    intro c hc
    have := Nat.isDigit_of_mem_toDigits (by decide) (by decide) hc
    simp [Char.isAlphanum, this]
  have hm : Char.isAlphanum 'm' = true := by decide
  have hn : Char.isAlphanum 'n' = true := by decide
  have ha : Char.isAlpha 'm' = true := by decide
  simp only [isId, List.length_cons, List.head?_cons, Option.any_some, List.all_cons, hall, hm, hn,
    ha, Bool.and_true, Bool.and_eq_true, decide_eq_true_eq]
  omega

/-- The id that the counter value `n` gives. -/
def ofCounter (n : UInt64) : ResourceId where
  text := String.ofList ('m' :: 'n' :: Nat.toDigits 10 n.toNat)
  valid := by
    rw [String.toList_ofList]
    exact isId_counted _ (Nat.lt_trans n.toNat_lt (by decide))

end ResourceId

end LeaseEscrow
