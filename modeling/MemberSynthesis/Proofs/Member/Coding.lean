import Mathlib.Logic.Function.Basic
import MemberSynthesis.Member.Required
import MemberSynthesis.Proofs.Member.Body
import MemberSynthesis.Proofs.Member.Transfer
import MemberSynthesis.Proofs.Schema.WellMade

/-!
# Decoding what was encoded

The bodies of the two coding methods are run as the programs they are: a transfer of the encoding
stores the value of a member under a key, one of the decoding initializer sets a member to what it
finds under a key, and either may fail. The programs are read from the text of the members, so that
nothing is assumed of how the two lists of lines belong together.

## The semantics

A store maps keys to values, and a value of the type maps names of members to values that may be
missing; a member that was never set is told apart from one that is set to nothing. The values are
of any type, because neither program looks at them. Encoding fails on a member that is not there,
and on a missing value that is not optional; decoding fails on an absent key that is not optional.
Nothing else can happen, and so a run is a fold in `Option`.

## The invariants

What carries the proof is one invariant for each program. After the encoding of some fields the
store holds the values of just these (`storeOf`), after the decoding of some fields just these are
set (`membersOf`). A step adds one field to the list, so a run adds all of them (`foldlM_ofField`),
and it is here that the names have to be distinct: a second field of the same name would take the
place of the first. The encoding covers the identity and the decoding does not, which does no harm:
**every writable field comes back with its value**, and the identity with it (`decode_encode`).

The statements of the schema are left out by a hypothesis, since nothing is known of what they do;
so is the rest of the type. What a value of the identity is computed from is a field with a name
that is fixed, and the theorem asks that the two agree, as they do in the generated code.
-/

set_option autoImplicit false

universe u

namespace MemberSynthesis

/-- The values under the keys of a container. -/
abbrev Store (V : Type u) : Type u := Text → Option V

/-- The members of a value, as far as they are set. A member that is set may have no value. -/
abbrev Members (V : Type u) : Type u := Text → Option (Option V)

namespace Transfer

variable {V : Type u}

/-! ## Programs

A line of a coding method is a transfer, and the method is the list of its transfers behind a line
that opens the container. What a transfer does depends on the direction alone. -/

/-- The program that a coding method is: after the line that opens a container and an empty line,
every line of the body is a transfer. A body with any other line is no program. -/
def program? (opening : Text) (ofLine? : Text → Option Transfer) (text : Text) :
    Option (List Transfer) :=
  match Member.bodyLines? text with
  | some (first :: second :: lines) =>
    if first = opening ∧ second = [] then lines.mapM ofLine? else none
  | _ => none

/-- The program that an encoding is. -/
def encoder? : Text → Option (List Transfer) :=
  program? "var container = encoder.container(keyedBy: CodingKeys.self)" ofEncodeLine?

/-- The program that a decoding initializer is. -/
def decoder? : Text → Option (List Transfer) :=
  program? "let container = try decoder.container(keyedBy: CodingKeys.self)" ofDecodeLine?

/-- One transfer of an encoding. There has to be such a member, and it may lack a value only if the
transfer allows for it. -/
def encodeStep (members : Members V) (store : Store V) (transfer : Transfer) : Option (Store V) :=
  match members transfer.member with
  | none => none
  | some none => if transfer.optional then some store else none
  | some (some v) => some (Function.update store transfer.key (some v))

/-- One transfer of a decoding. A key may be absent only if the transfer allows for it, and then the
member is set to nothing. -/
def decodeStep (store : Store V) (members : Members V) (transfer : Transfer) :
    Option (Members V) :=
  match store transfer.key with
  | none => if transfer.optional then some (Function.update members transfer.member (some none))
    else none
  | some v => some (Function.update members transfer.member (some (some v)))

/-- An encoding run on an empty store, transfer after transfer, up to the first that fails. -/
def encodeAll (program : List Transfer) (members : Members V) : Option (Store V) :=
  program.foldlM (encodeStep members) fun _ => none

/-- A decoding initializer run on a value of which nothing is set, up to the first transfer that
fails. -/
def decodeAll (program : List Transfer) (store : Store V) : Option (Members V) :=
  program.foldlM (decodeStep store) fun _ => none

/-! ## Values of fields

The states in between, as functions of the fields that were dealt with. Appending a field is
updating the function at its name, provided that the name is new; this is the only use of a name
that is made. -/

/-- The field of a name. -/
def named? (fields : List Field) (name : Text) : Option Field :=
  fields.find? fun field => field.name = name

/-- The fields as members, each with its value. Other names are no members. -/
def membersOf (fields : List Field) (values : Field → Option V) : Members V :=
  fun name => (named? fields name).map values

/-- The fields as keys, each over its value, if it has one. A field without a value leaves no key
behind. -/
def storeOf (fields : List Field) (values : Field → Option V) : Store V :=
  fun name => (named? fields name).bind values

theorem named?_of_mem {fields : List Field} (hdistinct : (fields.map Field.name).Nodup)
    {field : Field} (hfield : field ∈ fields) : named? fields field.name = some field := by
  induction fields with
  | nil => cases hfield
  | cons first more ih =>
    rw [List.map_cons, List.nodup_cons] at hdistinct
    rcases List.mem_cons.1 hfield with rfl | hmore
    · simp [named?]
    · have hne : first.name ≠ field.name := by
        intro heq
        rw [heq] at hdistinct
        exact hdistinct.1 (List.mem_map_of_mem hmore)
      have hfound := ih hdistinct.2 hmore
      rw [named?] at hfound ⊢
      rw [List.find?_cons_of_neg (by simpa using hne), hfound]

theorem named?_append_singleton {fields : List Field} {field : Field}
    (hnew : field.name ∉ fields.map Field.name) :
    named? (fields ++ [field]) = Function.update (named? fields) field.name (some field) := by
  funext name
  by_cases hname : name = field.name
  · rw [hname, Function.update_self, named?, List.find?_append]
    have hnone : fields.find? (fun other => decide (other.name = field.name)) = none := by
      rw [List.find?_eq_none]
      intro other hother heq
      have heq : other.name = field.name := by simpa using heq
      exact hnew (heq ▸ List.mem_map_of_mem hother)
    rw [hnone]
    simp
  · rw [Function.update_of_ne hname, named?, named?, List.find?_append]
    have hnone : [field].find? (fun other => decide (other.name = name)) = none := by
      simp [Ne.symm hname]
    rw [hnone, Option.or_none]

variable {values : Field → Option V}

theorem membersOf_eq_of_mem {fields : List Field} (hdistinct : (fields.map Field.name).Nodup)
    {field : Field} (hfield : field ∈ fields) :
    membersOf fields values field.name = some (values field) := by
  rw [membersOf, named?_of_mem hdistinct hfield, Option.map_some]

theorem storeOf_eq_of_mem {fields : List Field} (hdistinct : (fields.map Field.name).Nodup)
    {field : Field} (hfield : field ∈ fields) :
    storeOf fields values field.name = values field := by
  rw [storeOf, named?_of_mem hdistinct hfield, Option.bind_some]

theorem membersOf_append_singleton {fields : List Field} {field : Field}
    (hnew : field.name ∉ fields.map Field.name) :
    membersOf (fields ++ [field]) values =
      Function.update (membersOf fields values) field.name (some (values field)) := by
  funext name
  rw [membersOf, named?_append_singleton hnew]
  by_cases hname : name = field.name
  · rw [hname, Function.update_self, Function.update_self, Option.map_some]
  · rw [Function.update_of_ne hname, Function.update_of_ne hname, membersOf]

theorem storeOf_append_singleton {fields : List Field} {field : Field}
    (hnew : field.name ∉ fields.map Field.name) :
    storeOf (fields ++ [field]) values =
      Function.update (storeOf fields values) field.name (values field) := by
  funext name
  rw [storeOf, named?_append_singleton hnew]
  by_cases hname : name = field.name
  · rw [hname, Function.update_self, Function.update_self, Option.bind_some]
  · rw [Function.update_of_ne hname, Function.update_of_ne hname, storeOf]

theorem storeOf_eq_none {fields : List Field} {name : Text}
    (hnew : name ∉ fields.map Field.name) : storeOf fields values name = none := by
  have hnone : named? fields name = none := by
    rw [named?, List.find?_eq_none]
    intro field hfield heq
    have heq : field.name = name := by simpa using heq
    exact hnew (heq ▸ List.mem_map_of_mem hfield)
  rw [storeOf, hnone, Option.bind_none]

/-! ## Runs -/

theorem not_mem_of_nodup {done more : List Field} {field : Field}
    (hdistinct : ((done ++ field :: more).map Field.name).Nodup) :
    field.name ∉ done.map Field.name := by
  rw [List.map_append, List.nodup_append] at hdistinct
  intro hdone
  exact hdistinct.2.2 _ hdone _ List.mem_cons_self rfl

/-- **If a step adds its field to what is done, a run adds the fields one after the other**, as long
as they differ in name. The state is a function of the list of fields that were dealt with,
whichever program it is. -/
theorem foldlM_ofField {σ : Type u} {step : σ → Transfer → Option σ} (state : List Field → σ)
    {fields : List Field} : ∀ {done : List Field},
    (∀ before, ∀ field ∈ fields, field.name ∉ before.map Field.name →
      step (state before) (ofField field) = some (state (before ++ [field]))) →
    ((done ++ fields).map Field.name).Nodup →
    (fields.map ofField).foldlM step (state done) = some (state (done ++ fields)) := by
  induction fields with
  | nil =>
    intro done _ _
    rw [List.append_nil]
    rfl
  | cons field more ih =>
    intro done hstep hdistinct
    have hnew := not_mem_of_nodup hdistinct
    rw [List.append_cons] at hdistinct ⊢
    rw [List.map_cons, List.foldlM_cons, hstep done field List.mem_cons_self hnew]
    exact ih (fun before other hother => hstep before other (List.mem_cons_of_mem _ hother))
      hdistinct

/-! ## The encoding

A step, and then a run. The members are those of a value to begin with, and do not change. -/

/-- **A step of the encoding adds the field to the store.** If the value is missing, the store stays
as it is, and the field is optional. -/
theorem encodeStep_ofField {members : Members V} {done : List Field} {field : Field}
    (hmember : members field.name = some (values field))
    (hnil : values field = none → field.nullable)
    (hnew : field.name ∉ done.map Field.name) :
    encodeStep members (storeOf done values) (ofField field) =
      some (storeOf (done ++ [field]) values) := by
  rw [storeOf_append_singleton hnew, encodeStep, ofField]
  dsimp only
  rw [hmember]
  cases hvalue : values field with
  | none =>
    -- Nothing is stored, which is what the store of one field more says of its key.
    have hkept : storeOf done values field.name = none := storeOf_eq_none hnew
    dsimp only
    rw [if_pos (hnil hvalue), ← hkept, Function.update_eq_self]
  | some v => rfl

theorem encodeAll_ofField {members : Members V} {fields : List Field}
    (hmember : ∀ field ∈ fields, members field.name = some (values field))
    (hnil : ∀ field ∈ fields, values field = none → field.nullable)
    (hdistinct : (fields.map Field.name).Nodup) :
    encodeAll (fields.map ofField) members = some (storeOf fields values) := by
  show (fields.map ofField).foldlM (encodeStep members) (storeOf [] values) =
    some (storeOf ([] ++ fields) values)
  refine foldlM_ofField (fun done => storeOf done values) ?_ hdistinct
  intro before field hfield hnew
  exact encodeStep_ofField (hmember field hfield) (hnil field hfield) hnew

/-! ## The decoding

A step, and then a run. Here the store is what does not change. -/

/-- **A step of the decoding sets the member of the field** to what is stored, or to nothing. -/
theorem decodeStep_ofField {store : Store V} {done : List Field} {field : Field}
    (hstored : store field.name = values field)
    (hnil : values field = none → field.nullable)
    (hnew : field.name ∉ done.map Field.name) :
    decodeStep store (membersOf done values) (ofField field) =
      some (membersOf (done ++ [field]) values) := by
  rw [membersOf_append_singleton hnew, decodeStep, ofField]
  dsimp only
  rw [hstored]
  cases hvalue : values field with
  | none =>
    dsimp only
    rw [if_pos (hnil hvalue)]
  | some v => rfl

theorem decodeAll_ofField {store : Store V} {fields : List Field}
    (hstored : ∀ field ∈ fields, store field.name = values field)
    (hnil : ∀ field ∈ fields, values field = none → field.nullable)
    (hdistinct : (fields.map Field.name).Nodup) :
    decodeAll (fields.map ofField) store = some (membersOf fields values) := by
  show (fields.map ofField).foldlM (decodeStep store) (membersOf [] values) =
    some (membersOf ([] ++ fields) values)
  refine foldlM_ofField (fun done => membersOf done values) ?_ hdistinct
  intro before field hfield hnew
  exact decodeStep_ofField (hstored field hfield) (hnil field hfield) hnew

/-! ## The programs of a schema -/

/-- A method that opens a container and goes on with one line for each field is the program of these
fields: every line is read as the transfer of its field. -/
theorem program?_braced {header opening : Text} {ofLine? : Text → Option Transfer}
    {line : Field → Text} {fields : List Field}
    (hheader : CodePoint.scalar '\n' ∉ header) (hopening : CodePoint.scalar '\n' ∉ opening)
    (hline : ∀ field ∈ fields, CodePoint.scalar '\n' ∉ line field)
    (hread : ∀ field ∈ fields, ofLine? (line field) = some (ofField field)) :
    program? opening ofLine? (Member.braced header ([opening, []] ++ fields.map line)) =
      some (fields.map ofField) := by
  have hbody : Member.bodyLines? (Member.braced header ([opening, []] ++ fields.map line)) =
      some ([opening, []] ++ fields.map line) := by
    apply Member.bodyLines?_braced hheader
    intro written hwritten
    simp only [List.cons_append, List.nil_append, List.mem_cons, List.mem_map] at hwritten
    rcases hwritten with rfl | rfl | ⟨field, hfield, rfl⟩
    · exact hopening
    · exact List.not_mem_nil
    · exact hline field hfield
  rw [program?, hbody]
  simp only [List.cons_append, List.nil_append, and_self, if_true]
  exact Outcome.mapM_map_eq_some hread

end Transfer

namespace Schema

variable {schema : Schema}

theorem WellMade.encoder?_encode (h : schema.WellMade) :
    Transfer.encoder? (Member.encode schema).text =
      some (schema.codingFields.map Transfer.ofField) := by
  apply Transfer.program?_braced (by decide) (by decide)
  · intro field hfield
    exact Member.not_mem_encodeLine (h.isSpelled_of_mem hfield)
  · intro field hfield
    exact Transfer.ofEncodeLine?_encodeLine (h.isSpelled_of_mem hfield)

theorem WellMade.decoder?_decodingInit (h : schema.WellMade)
    (hlines : schema.initializerLines = []) :
    Transfer.decoder? (Member.decodingInit schema).text =
      some (schema.writable.map Transfer.ofField) := by
  rw [Member.decodingInit, hlines, List.append_nil]
  apply Transfer.program?_braced (Member.not_mem_decodingHeader _) (by decide)
  · intro field hfield
    exact Member.not_mem_decodeLine (h.isSpelled_of_mem_writable hfield)
  · intro field hfield
    exact Transfer.ofDecodeLine?_decodeLine (h.isSpelled_of_mem_writable hfield)

end Schema

namespace Directive

/-- **Decoding gives back what was encoded.** Of a schema without statements of its own, the
encoding and the decoding initializer are programs, and for all values of the coding fields of which
only those of optional fields are missing, and in which the identity is the value it is computed
from, neither fails on what it is given and every writable field comes back with its value. -/
theorem decode_encode {directive : Attribute} {declaration : Declaration} {schema : Schema}
    (h : interpret directive declaration = .ok schema) (hlines : schema.initializerLines = []) :
    ∃ encoder decoder, Transfer.encoder? (Member.encode schema).text = some encoder ∧
      Transfer.decoder? (Member.decodingInit schema).text = some decoder ∧
      ∀ (V : Type u) (values : Field → Option V),
        (∀ field ∈ schema.codingFields, values field = none → field.nullable) →
        (∀ field ∈ schema.codingFields, field.name = Member.identitySource →
          values Field.identity = values field) →
        ∃ store decoded,
          Transfer.encodeAll encoder (Transfer.membersOf schema.codingFields values) = some store ∧
          Transfer.decodeAll decoder store = some decoded ∧
          (∀ field ∈ schema.writable, decoded field.name = some (values field)) ∧
          decoded Member.identitySource = some (values Field.identity) := by
  have hmade := Schema.wellMade_of_interpret h
  refine ⟨_, _, hmade.encoder?_encode, hmade.decoder?_decodingInit hlines, ?_⟩
  intro V values hnil hidentity
  have hencoded := Transfer.encodeAll_ofField
    (fun field hfield => Transfer.membersOf_eq_of_mem hmade.distinct hfield) hnil hmade.distinct
  have hdecoded := Transfer.decodeAll_ofField
    (fun field hfield => Transfer.storeOf_eq_of_mem hmade.distinct
      (Schema.mem_codingFields_of_mem_writable hfield))
    (fun field hfield => hnil field (Schema.mem_codingFields_of_mem_writable hfield))
    hmade.nodup_writable
  have hback : ∀ field ∈ schema.writable,
      Transfer.membersOf schema.writable values field.name = some (values field) :=
    fun field hfield => Transfer.membersOf_eq_of_mem hmade.nodup_writable hfield
  refine ⟨_, _, hencoded, hdecoded, hback, ?_⟩
  -- The identity is not decoded, but the field it is computed from is.
  have hsource := hmade.publicId_mem_writable
  rw [hidentity _ (Schema.mem_codingFields_of_mem_writable hsource) rfl]
  exact hback _ hsource

/-- A recipe: two fields of its own, one of them optional. -/
def Content.recipe : Content where
  comparable := []
  descriptors := ["title: String", "notes: [Note]?"]
  own := [⟨"title", "String", false, false⟩, ⟨"notes", "[Note]", true, false⟩]
  statements := []

/-- A recipe without notes and with a title comes back so. -/
theorem decode_encode_recipe :
    ∃ schema, interpret Content.recipe.directive ⟨.structType, "Recipe"⟩ = .ok schema ∧
      schema.initializerLines = [] ∧
      ∃ encoder decoder store decoded,
        Transfer.encoder? (Member.encode schema).text = some encoder ∧
        Transfer.decoder? (Member.decodingInit schema).text = some decoder ∧
        Transfer.encodeAll encoder (Transfer.membersOf schema.codingFields fun field =>
          if field.nullable then none else some field.typeName) = some store ∧
        Transfer.decodeAll decoder store = some decoded ∧
        decoded "notes" = some none ∧ decoded "title" = some (some ("String" : Text)) := by
  have hinterpret : interpret Content.recipe.directive ⟨.structType, "Recipe"⟩ =
      .ok (Content.recipe.schema ⟨.structType, "Recipe"⟩) :=
    interpret_directive (by decide) (.cons (by decide +kernel) (.cons (by decide +kernel) .nil))
      (by decide +kernel)
  have hlines : (Content.recipe.schema ⟨.structType, "Recipe"⟩).initializerLines = [] := by
    decide +kernel
  obtain ⟨encoder, decoder, hencoder, hdecoder, hruns⟩ := decode_encode hinterpret hlines
  obtain ⟨store, decoded, hencoded, hdecoded, hback, _⟩ := hruns Text
    (fun field => if field.nullable then none else some field.typeName)
    (by decide +kernel) (by decide +kernel)
  have hnotes := hback ⟨"notes", "[Note]", true, false⟩ (by decide +kernel)
  have htitle := hback ⟨"title", "String", false, false⟩ (by decide +kernel)
  exact ⟨_, hinterpret, hlines, encoder, decoder, store, decoded, hencoder, hdecoder, hencoded,
    hdecoded, hnotes, htitle⟩

end Directive

end MemberSynthesis
