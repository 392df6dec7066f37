import LeaseEscrow.Codec.State
import LeaseEscrow.Proofs.Codec.Basic
import LeaseEscrow.Proofs.Genesis
import LeaseEscrow.Proofs.Registry.Import

/-!
# Genesis documents

Every record reads back, field by field, and so does a whole genesis state. Main statement
(`Genesis.ofText_toText`): a valid state is read from its own document.
-/

namespace LeaseEscrow

open Json

/-! ## Amounts and parameters -/

instance : LawfulCodec Coin where
  plain := Coin.plain
  printable _ := printable_record <| by simp
  decode_encode _ := by
    show (fields? Coin.fieldNames (record Coin.fieldNames _) >>= _) = _
    rw [fields?_record_bind (by decide) rfl]
    simp only [List.map_cons, List.map_nil, required_encode]
    rfl

instance : LawfulCodec Distribution where
  plain := Distribution.plain
  printable _ := printable_record <| by simp
  decode_encode _ := by
    show (fields? Distribution.fieldNames (record Distribution.fieldNames _) >>= _) = _
    rw [fields?_record_bind (by decide) rfl]
    simp only [List.map_cons, List.map_nil, required_encode]
    rfl

instance : LawfulCodec Params where
  plain := Params.plain
  printable _ := printable_record <| by simp
  decode_encode _ := by
    show (fields? Params.fieldNames (record Params.fieldNames _) >>= _) = _
    rw [fields?_record_bind (by decide) rfl]
    simp only [List.map_cons, List.map_nil, required_encode]
    rfl

/-! ## Resources -/

instance : LawfulCodec Status where
  plain := id
  printable _ := .str _
  decode_encode s := by cases s <;> decide

instance : LawfulCodec NodeInfo where
  plain := id
  printable _ := printable_record <| by simp
  decode_encode _ := by
    show (fields? NodeInfo.fieldNames (record NodeInfo.fieldNames _) >>= _) = _
    rw [fields?_record_bind (by decide) rfl]
    simp only [List.map_cons, List.map_nil, required_encode]
    rfl

instance : LawfulCodec Hardware where
  plain := id
  printable _ := printable_record <| by simp
  decode_encode _ := by
    show (fields? Hardware.fieldNames (record Hardware.fieldNames _) >>= _) = _
    rw [fields?_record_bind (by decide) rfl]
    simp only [List.map_cons, List.map_nil, required_encode]
    rfl

instance : LawfulCodec Deposit where
  plain := Deposit.plain
  printable _ := printable_record <| by simp
  decode_encode _ := by
    show (fields? Deposit.fieldNames (record Deposit.fieldNames _) >>= _) = _
    rw [fields?_record_bind (by decide) rfl]
    simp only [List.map_cons, List.map_nil, required_encode]
    rfl

instance : LawfulCodec Resource where
  plain := Resource.plain
  printable _ := printable_record <| by simp
  decode_encode _ := by
    show (fields? Resource.fieldNames (record Resource.fieldNames _) >>= _) = _
    rw [fields?_record_bind (by decide) rfl]
    simp only [List.map_cons, List.map_nil, required_encode, optionally_encode]
    rfl

/-! ## Leases -/

instance : LawfulCodec Lease where
  plain := Lease.plain
  printable _ := printable_record <| by simp
  decode_encode _ := by
    show (fields? Lease.fieldNames (record Lease.fieldNames _) >>= _) = _
    rw [fields?_record_bind (by decide) rfl]
    simp only [List.map_cons, List.map_nil, required_encode]
    rfl

/-! ## The values of the store -/

namespace Genesis

instance : LawfulCodec Genesis where
  plain := Genesis.plain
  printable _ := printable_record <| by simp
  decode_encode _ := by
    show (fields? Genesis.fieldNames (record Genesis.fieldNames _) >>= _) = _
    rw [fields?_record_bind (by decide) rfl]
    simp only [List.map_cons, List.map_nil, required_encode]
    rfl

/-- Any state is read from its own document, in plain records. -/
theorem readDocument_toText (g : Genesis) : readDocument g.toText = .ok g.plain := by
  have htext : Json.ofText? g.toText = some (encode g) :=
    ofText?_pretty (LawfulCodec.printable g)
  have hvalue : (Json.ofText? g.toText).bind decode? = some g.plain :=
    Option.bind_eq_some_iff.2 ⟨encode g, htext, LawfulCodec.decode_encode g⟩
  rw [readDocument, hvalue]

/-- A valid state is accepted with its own document. -/
theorem ofText_toText {g : Genesis} (h : g.Valid) : ofText g.toText = .ok g.plain := by
  rw [ofText, readDocument_toText]
  show (g.plain.validate >>= fun _ => pure g.plain) = _
  rw [validate_eq_ok.2 h.plain]
  rfl

end Genesis

end LeaseEscrow
