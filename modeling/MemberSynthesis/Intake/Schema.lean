import MemberSynthesis.Intake.Source
import MemberSynthesis.Schema.Basic

/-!
# Intake of fields and schemas

The names of a field are checked as they arrive, the invariants of a schema only once all its parts
have passed. So the problems of the parts come together, and a problem of the whole comes alone: it
has no path, and the first fault of the schema is its message. What passes is a schema without
faults.
-/

set_option autoImplicit false

namespace MemberSynthesis

open Checked Shape

/-- Checks a field. It is neither optional nor computed unless it is said to be. -/
def Field.ofDatum : Datum → Checked Field := record "FieldSpec" fun datum =>
  (both (required datum "name" (faultless Field.nameFault?))
    (both (required datum "type_name" (faultless Field.typeNameFault?))
      (both (optional datum "nullable" false boolean)
        (optional datum "read_only" false boolean)))).map
    fun (name, typeName, nullable, readOnly) => ⟨name, typeName, nullable, readOnly⟩

namespace Schema

/-- Checks the parts of a schema, each on its own. -/
def partsOfDatum : Datum → Checked Schema := record "TypeSchema" fun datum =>
  (both (required datum "type_name" text)
    (both (optional datum "declaration_kind" .classType word)
      (both (required datum "comparable_fields" (list text))
        (both (required datum "coding_fields" (list Field.ofDatum))
          (optional datum "custom_init_text" [] text))))).map
    fun (typeName, declarationKind, comparableFields, codingFields, initializerText) =>
      { typeName, declarationKind, comparableFields, codingFields, initializerText }

/-- Checks a schema: its parts, and then what its members rely on. -/
def ofDatum (datum : Datum) : Checked Schema := do
  let schema ← partsOfDatum datum
  match schema.fault? with
  | none => return schema
  | some fault => refuse (.invalid fault.message)

end Schema

end MemberSynthesis
