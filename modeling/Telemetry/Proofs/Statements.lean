import Mathlib.Data.List.Forall2
import Telemetry.Command.Arguments
import Telemetry.Generate.Emission
import Telemetry.Payload

/-!
# Generated statements

The struct of a generated module and the statements of its encoder and decoder are texts. This
module reads the texts and says what running them does to a payload.

* `Form`, `readForms?`: texts with a place for one word, and what such a text is read as.
* `Storage`, `FieldType`, `Content`: the types of generated code and what fields of them hold.
* `Statement`: an access to a field. `Wording` is how encoders or decoders spell it, and
  `Wording.read?` reads it back.
* `Code`: the texts of a module. `Code.zeros` is its default struct, `Code.pack` runs its encoder
  and `Code.unpack` its decoder. Code that does not fit the types of the struct is stuck.
-/

namespace Telemetry

/-- The text of an attribute, if it is one. -/
def Context.text? (c : Context) (name : String) : Option String :=
  match c.get? name with
  | some (.text value) => some value
  | _ => none

namespace Generate

/-! ## Forms of texts -/

section Forms

variable {α : Type}

/-- A form of texts: they have a front and a back in common, and a word between these. -/
structure Form (α : Type) where
  front : String
  back : String
  /-- What a text with a given word is read as. -/
  build : String → Option α

/-- The text of a form with a given word. -/
def Form.fill (f : Form α) (word : String) : String := f.front ++ word ++ f.back

/-- The word in a text of a form. -/
def Form.word? (f : Form α) (text : String) : Option String := do
  let rest ← text.toList.dropPrefix? f.front.toList
  let word ← rest.dropSuffix? f.back.toList
  return String.ofList word

theorem Form.word?_eq_some_iff {f : Form α} {text word : String} :
    f.word? text = some word ↔ text = f.fill word := by
  rw [← String.toList_inj]
  simp only [word?, fill, Option.bind_eq_bind, Option.bind_eq_some_iff, Option.pure_def,
    Option.some.injEq, List.dropPrefix?_eq_some_iff, List.dropSuffix?_eq_some_iff, beq_iff_eq,
    String.toList_append, List.append_assoc]
  constructor
  · rintro ⟨rest, ⟨front, htext, rfl⟩, letters, ⟨back, rfl, rfl⟩, rfl⟩
    simpa using htext
  · intro htext
    exact ⟨_, ⟨_, htext, rfl⟩, word.toList, ⟨_, rfl, rfl⟩, String.ofList_toList⟩

/-- Two texts neither of which goes on the other. -/
def clash (xs ys : List Char) : Bool := !xs.isPrefixOf ys && !ys.isPrefixOf xs

theorem append_ne_of_clash {xs ys : List Char} (h : clash xs ys = true) (xs' ys' : List Char) :
    xs ++ xs' ≠ ys ++ ys' := by
  intro heq
  simp only [clash, Bool.and_eq_true, Bool.not_eq_true', ← Bool.not_eq_true,
    List.isPrefixOf_iff_prefix] at h
  rcases List.append_eq_append_iff.1 heq with ⟨zs, rfl, -⟩ | ⟨zs, rfl, -⟩
  · exact h.1 (List.prefix_append xs zs)
  · exact h.2 (List.prefix_append ys zs)

/-- Two forms that tell themselves apart by their fronts, or else by their backs. -/
def Form.apart (f g : Form α) : Bool :=
  clash f.front.toList g.front.toList ||
    (f.front == g.front && clash f.back.toList.reverse g.back.toList.reverse)

theorem Form.fill_ne_of_apart {f g : Form α} (h : f.apart g = true) (word word' : String) :
    f.fill word ≠ g.fill word' := by
  intro heq
  have hlist := String.toList_inj.2 heq
  simp only [fill, String.toList_append, List.append_assoc] at hlist
  rw [apart, Bool.or_eq_true, Bool.and_eq_true, beq_iff_eq] at h
  rcases h with hfront | ⟨hfront, hback⟩
  · exact append_ne_of_clash hfront _ _ hlist
  · rw [hfront] at hlist
    have hrev := congrArg List.reverse (List.append_cancel_left hlist)
    rw [List.reverse_append, List.reverse_append] at hrev
    exact append_ne_of_clash hback _ _ hrev

/-- Reads a text of one of some forms. -/
def readForms? (forms : List (Form α)) (text : String) : Option α :=
  forms.findSome? fun f => (f.word? text).bind f.build

/-- A text of one of several forms that are apart is read as that form says. -/
theorem readForms?_fill {forms : List (Form α)} (hapart : forms.Pairwise fun f g => f.apart g)
    {f : Form α} (hf : f ∈ forms) (word : String) :
    readForms? forms (f.fill word) = f.build word := by
  have hother {g : Form α} (hne : ∀ word', f.fill word ≠ g.fill word') :
      (g.word? (f.fill word)).bind g.build = none := by
    cases hword : g.word? (f.fill word) with
    | none => rfl
    | some word' => exact absurd (Form.word?_eq_some_iff.1 hword) (hne word')
  have hself : (f.word? (f.fill word)).bind f.build = f.build word := by
    rw [Form.word?_eq_some_iff.2 rfl, Option.bind_some]
  unfold readForms?
  induction forms with
  | nil => cases hf
  | cons g forms ih =>
    rw [List.pairwise_cons] at hapart
    rcases List.mem_cons.1 hf with rfl | hf
    · have hrest : forms.findSome? (fun g => (g.word? (f.fill word)).bind g.build) = none :=
        List.findSome?_eq_none_iff.2 fun g hg =>
          hother fun word' => Form.fill_ne_of_apart (hapart.1 g hg) word word'
      rw [List.findSome?_cons, hself, hrest]
      cases f.build word <;> rfl
    · have hg := hother fun word' => (Form.fill_ne_of_apart (hapart.1 f hf) word' word).symm
      rw [List.findSome?_cons, hg]
      exact ih hapart.2 hf

end Forms

/-! ## Types -/

/-- The types of single values in generated code. -/
inductive Storage where
  | integer (kind : IntKind)
  | float
  | double
deriving DecidableEq

namespace Storage

/-- The name of a type. -/
def name : Storage → String
  | integer kind => kind.name
  | float => "f32"
  | double => "f64"

/-- The types that generated code can name. Characters have no type of their own. -/
def all : List Storage :=
  [integer .u8, integer .u16, integer .u32, integer .u64, integer .i8, integer .i16, integer .i32,
    integer .i64, float, double]

/-- The sort of the values of a type. -/
def valueKind : Storage → ValueKind
  | integer kind => .integer kind
  | float => .float
  | double => .double

/-- The zero of a type. -/
def zero : Storage → Value
  | integer kind => .wrap kind 0
  | float => .float ⟨0⟩
  | double => .double ⟨0⟩

/-- How the zero of a type is spelled. -/
def zeroText : Storage → String
  | integer _ => "0"
  | _ => "0.0"

theorem kind_zero (t : Storage) : t.zero.kind = t.valueKind := by
  cases t <;> rfl

end Storage

/-- The type that generated code stores values of a scalar type in. -/
def storageOf : ScalarType → Storage
  | .float => .float
  | .double => .double
  | .integer .char => .integer .u8
  | .integer kind => .integer kind
  | .version => .integer .u8

theorem storage_eq_name (t : ScalarType) : t.storage = (storageOf t).name := by
  cases t with
  | integer kind => cases kind <;> rfl
  | _ => rfl

theorem storageOf_mem_all (t : ScalarType) : storageOf t ∈ Storage.all := by
  cases t with
  | integer kind => cases kind <;> decide
  | _ => decide

theorem zeroText_storageOf (t : ScalarType) :
    (storageOf t).zeroText = if t.isFloat then "0.0" else "0" := by
  cases t with
  | integer kind => cases kind <;> rfl
  | _ => rfl

theorem digits?_toDigits (n : Nat) : digits? (Nat.toDigits 10 n) = some n := by
  have hall : (Nat.toDigits 10 n).all Char.isDigit = true :=
    List.all_eq_true.2 fun c hc => Nat.isDigit_of_mem_toDigits (by decide) (by decide) hc
  have hvalue := Nat.ofDigitChars_ten_toDigits (n := n)
  rw [Nat.ofDigitChars_eq_foldl] at hvalue
  simpa [digits?, hall, Nat.toDigits_ne_nil, Nat.mul_comm 10] using hvalue

/-- The type of a field of a generated struct. -/
inductive FieldType where
  | one (type : Storage)
  | array (type : Storage) (length : Nat)
deriving DecidableEq

/-- What a field of a generated struct holds. -/
inductive Content where
  | one (value : Value)
  | many (values : List Value)

namespace FieldType

/-- The form of the name of a type. -/
def oneForm (t : Storage) : Form FieldType :=
  ⟨t.name, "", fun word => if word = "" then some (.one t) else none⟩

/-- The form of arrays of a type, with a place for their length. -/
def arrayForm (t : Storage) : Form FieldType :=
  ⟨"[" ++ t.name ++ "; ", "]", fun word => (digits? word.toList).map (.array t)⟩

/-- The forms of types. -/
def forms : List (Form FieldType) := Storage.all.map oneForm ++ Storage.all.map arrayForm

/-- Reads a type. -/
def read? (text : String) : Option FieldType := readForms? forms text

/-- How a field of a type is spelled, given how its values are. -/
def spell (word : Storage → String) : FieldType → String
  | one t => word t
  | array t n => "[" ++ word t ++ "; " ++ toString n ++ "]"

/-- The zero of a type. -/
def zero : FieldType → Content
  | one t => .one t.zero
  | array t n => .many (List.replicate n t.zero)

/-- Reads the zero of a type. -/
def readZero? (t : FieldType) (text : String) : Option Content :=
  if text = t.spell Storage.zeroText then some t.zero else none

/-- Whether a content is of a type. -/
def Holds : FieldType → Content → Prop
  | one t, .one v => v.kind = t.valueKind
  | array t n, .many vs => vs.length = n ∧ ∀ v ∈ vs, v.kind = t.valueKind
  | _, _ => False

theorem holds_one_iff {t : Storage} {c : Content} :
    (one t).Holds c ↔ ∃ v, c = .one v ∧ v.kind = t.valueKind := by
  cases c <;> simp [Holds]

theorem holds_array_iff {t : Storage} {n : Nat} {c : Content} :
    (array t n).Holds c ↔
      ∃ vs, c = .many vs ∧ vs.length = n ∧ ∀ v ∈ vs, v.kind = t.valueKind := by
  cases c <;> simp [Holds]

theorem holds_zero (t : FieldType) : t.Holds t.zero := by
  cases t with
  | one t => exact t.kind_zero
  | array t n =>
    refine ⟨List.length_replicate, fun v hv => ?_⟩
    rw [List.eq_of_mem_replicate hv]
    exact t.kind_zero

theorem forms_apart : forms.Pairwise fun f g => f.apart g := by
  decide +kernel

theorem read?_one {t : Storage} (ht : t ∈ Storage.all) :
    read? ((one t).spell Storage.name) = some (one t) := by
  have hmem : oneForm t ∈ forms := List.mem_append_left _ (List.mem_map_of_mem ht)
  have hread := readForms?_fill forms_apart hmem ""
  simpa [read?, spell, Form.fill, oneForm] using hread

theorem read?_array {t : Storage} (ht : t ∈ Storage.all) (n : Nat) :
    read? ((array t n).spell Storage.name) = some (array t n) := by
  have hmem : arrayForm t ∈ forms := List.mem_append_right _ (List.mem_map_of_mem ht)
  have hread := readForms?_fill forms_apart hmem n.repr
  simpa [read?, spell, Form.fill, arrayForm, digits?_toDigits] using hread

end FieldType

/-- The type of the field of a step. -/
def stepType (s : Step) : FieldType :=
  match s.kind with
  | .scalar => .one (storageOf s.type)
  | .array n | .text n => .array (storageOf s.type) n

theorem fieldType_eq_spell (s : Step) : fieldType s = (stepType s).spell Storage.name := by
  unfold fieldType stepType
  cases s.kind <;> rw [storage_eq_name] <;> rfl

theorem fieldZero_eq_spell (s : Step) : fieldZero s = (stepType s).spell Storage.zeroText := by
  unfold fieldZero stepType
  cases s.kind <;> rw [← zeroText_storageOf] <;> rfl

theorem read?_fieldType (s : Step) : FieldType.read? (fieldType s) = some (stepType s) := by
  have hmem := storageOf_mem_all s.type
  rw [fieldType_eq_spell, stepType]
  split
  · exact FieldType.read?_one hmem
  · exact FieldType.read?_array hmem _
  · exact FieldType.read?_array hmem _

theorem readZero?_fieldZero (s : Step) :
    (stepType s).readZero? (fieldZero s) = some (stepType s).zero := by
  rw [FieldType.readZero?, if_pos (fieldZero_eq_spell s)]

/-! ## Statements -/

/-- A statement of a generated encoder or decoder, which puts or gets the field of an identifier. -/
inductive Statement where
  /-- A single value. -/
  | one (type : Storage) (ident : String)
  /-- The elements of an array, from the first to the last. -/
  | each (type : Storage) (ident : String)
  /-- All bytes of an array of bytes at once. -/
  | bytes (ident : String)
deriving DecidableEq

/-- How statements are spelled: the texts before and after the identifier. -/
structure Wording where
  one : Storage → String × String
  each : Storage → String × String
  bytes : String × String

namespace Wording

/-- The wording of encoders. -/
def put : Wording where
  one t := ("p.put_" ++ t.name ++ "(self.", ");")
  each t := ("for v in self.", ".iter() \x7b p.put_" ++ t.name ++ "(*v); \x7d")
  bytes := ("p.put_bytes(&self.", ");")

/-- The wording of decoders. -/
def get : Wording where
  one t := ("msg.", " = p.get_" ++ t.name ++ "()?;")
  each t := ("for v in msg.", ".iter_mut() \x7b *v = p.get_" ++ t.name ++ "()?; \x7d")
  bytes := ("p.get_bytes(&mut msg.", ")?;")

/-- The form of the statements of one sort. -/
def form (words : String × String) (build : String → Statement) : Form Statement :=
  ⟨words.1, words.2, fun ident => some (build ident)⟩

/-- The forms of statements. -/
def forms (w : Wording) : List (Form Statement) :=
  Storage.all.map (fun t => form (w.one t) (.one t))
    ++ Storage.all.map (fun t => form (w.each t) (.each t)) ++ [form w.bytes .bytes]

/-- Reads a statement. -/
def read? (w : Wording) (line : String) : Option Statement := readForms? w.forms line

/-- Whether no text can be read as two statements. -/
def Clear (w : Wording) : Prop := w.forms.Pairwise fun f g => f.apart g

theorem clear_put : put.Clear := by
  unfold Clear
  decide +kernel

theorem clear_get : get.Clear := by
  unfold Clear
  decide +kernel

/-- How a statement is spelled. -/
def text (w : Wording) : Statement → String
  | .one t ident => (w.one t).1 ++ ident ++ (w.one t).2
  | .each t ident => (w.each t).1 ++ ident ++ (w.each t).2
  | .bytes ident => w.bytes.1 ++ ident ++ w.bytes.2

end Wording

/-- The statement of a step. -/
def stepStatement (s : Step) : Statement :=
  match s.kind with
  | .scalar => .one (storageOf s.type) (identifier s.field)
  | .array _ => .each (storageOf s.type) (identifier s.field)
  | .text _ => .bytes (identifier s.field)

/-- The statement of a step is read back from its text. -/
theorem Wording.Clear.read?_text {w : Wording} (h : w.Clear) (s : Step) :
    w.read? (w.text (stepStatement s)) = some (stepStatement s) := by
  have ht := storageOf_mem_all s.type
  unfold stepStatement
  cases s.kind with
  | scalar =>
    have hmem : form (w.one (storageOf s.type)) (.one (storageOf s.type)) ∈ w.forms :=
      List.mem_append_left _ (List.mem_append_left _ (List.mem_map_of_mem ht))
    exact readForms?_fill h hmem _
  | array n =>
    have hmem : form (w.each (storageOf s.type)) (.each (storageOf s.type)) ∈ w.forms :=
      List.mem_append_left _ (List.mem_append_right _ (List.mem_map_of_mem ht))
    exact readForms?_fill h hmem _
  | text n => exact readForms?_fill h (List.mem_append_right _ List.mem_cons_self) _

theorem read?_putLine (s : Step) :
    Wording.put.read? (Access.ofStep s).putLine = some (stepStatement s) := by
  have htext : (Access.ofStep s).putLine = Wording.put.text (stepStatement s) := by
    unfold Access.putLine Access.ofStep stepStatement
    cases s.kind <;>
      simp [Wording.put, Wording.text, storage_eq_name, toString, String.append_assoc]
  rw [htext, Wording.clear_put.read?_text]

theorem read?_getLine (s : Step) :
    Wording.get.read? (Access.ofStep s).getLine = some (stepStatement s) := by
  have htext : (Access.ofStep s).getLine = Wording.get.text (stepStatement s) := by
    unfold Access.getLine Access.ofStep stepStatement
    cases s.kind <;>
      simp [Wording.get, Wording.text, storage_eq_name, toString, String.append_assoc]
  rw [htext, Wording.clear_get.read?_text]

/-! ## Running statements -/

/-- Why generated code gives no result. -/
inductive Fault where
  /-- The code does not fit the types of its struct, or is no code. -/
  | stuck
  /-- The payload has a fault. -/
  | payload (e : CodecError)
deriving DecidableEq

/-- What was read, and a fault if nothing was. -/
def need {α : Type} : Option α → Except Fault α
  | some a => .ok a
  | none => .error .stuck

@[simp] theorem need_some_bind {α β : Type} (a : α) (f : α → Except Fault β) :
    (need (some a) >>= f) = f a := rfl

theorem need_eq_ok_iff {α : Type} {x : Option α} {a : α} : need x = .ok a ↔ x = some a := by
  cases x <;> simp [need]

namespace Storage

/-- Puts a value of a type at the end of a payload. -/
def put (t : Storage) (p : Payload) (v : Value) : Except Fault Payload :=
  match t, v with
  | integer kind, .integer kind' n _ =>
    if kind = kind' then .ok (p.putInt kind n) else .error .stuck
  | float, .float x => .ok (p.putBinary32 x)
  | double, .double x => .ok (p.putBinary64 x)
  | _, _ => .error .stuck

/-- Gets a value of a type. -/
def get (t : Storage) (p : Payload) : Except Fault (Value × Payload) :=
  match t with
  | integer kind => do
    let (n, p) ← (p.getInt kind).mapError .payload
    if h : kind.Holds n then return (.integer kind n h, p) else throw .stuck
  | float => do
    let (x, p) ← p.getBinary32.mapError .payload
    return (.float x, p)
  | double => do
    let (x, p) ← p.getBinary64.mapError .payload
    return (.double x, p)

/-- Gets a value in the place of an old one. -/
def replace (t : Storage) (old : Value) (p : Payload) : Except Fault (Value × Payload) :=
  if old.kind = t.valueKind then t.get p else .error .stuck

/-- Gets a value in the place of each of some old ones, one after the other. -/
def replaceEach (t : Storage) : List Value → Payload → Except Fault (List Value × Payload)
  | [], p => .ok ([], p)
  | old :: rest, p => do
    let (v, p) ← t.replace old p
    let (vs, p) ← t.replaceEach rest p
    return (v :: vs, p)

end Storage

/-- A byte as a value. -/
def byteValue (b : UInt8) : Value := .wrap .u8 b.toNat

/-- The byte of a value. -/
def byte? : Value → Option UInt8
  | .integer .u8 n _ => some (UInt8.ofNat n.toNat)
  | _ => none

/-- The value of a generated struct: what its fields hold, by their identifiers. -/
abbrev Record := List (String × Content)

namespace Record

/-- What a field holds. -/
def get? (r : Record) (ident : String) : Option Content := r.lookup ident

/-- The struct with another content of a field. -/
def set (r : Record) (ident : String) (c : Content) : Record :=
  r.map fun entry => if entry.1 = ident then (entry.1, c) else entry

end Record

namespace Statement

/-- Puts a field at the end of a payload. -/
def put (r : Record) (p : Payload) : Statement → Except Fault Payload
  | one t ident =>
    match r.get? ident with
    | some (.one v) => t.put p v
    | _ => .error .stuck
  | each t ident =>
    match r.get? ident with
    | some (.many vs) => vs.foldlM t.put p
    | _ => .error .stuck
  | .bytes ident =>
    match r.get? ident with
    | some (.many vs) => do
      let content ← need (vs.mapM byte?)
      return p.putBytes content
    | _ => .error .stuck

/-- Gets a field. -/
def get (r : Record) (p : Payload) : Statement → Except Fault (Record × Payload)
  | one t ident =>
    match r.get? ident with
    | some (.one old) => do
      let (v, p) ← t.replace old p
      return (r.set ident (.one v), p)
    | _ => .error .stuck
  | each t ident =>
    match r.get? ident with
    | some (.many olds) => do
      let (vs, p) ← t.replaceEach olds p
      return (r.set ident (.many vs), p)
    | _ => .error .stuck
  | bytes ident =>
    match r.get? ident with
    | some (.many olds) => do
      let olds ← need (olds.mapM byte?)
      let (content, p) ← (p.getBytes olds.length).mapError .payload
      return (r.set ident (.many (content.map byteValue)), p)
    | _ => .error .stuck

end Statement

/-! ## Modules -/

/-- The texts of a field of a generated struct. -/
structure FieldText where
  ident : String
  type : String
  /-- Its value in the default struct. -/
  zero : String

/-- The field of a default struct. -/
def FieldText.initial (f : FieldText) : Except Fault (String × Content) := do
  let t ← need (FieldType.read? f.type)
  let zero ← need (t.readZero? f.zero)
  return (f.ident, zero)

/-- The texts of the module of a message. -/
structure Code where
  fields : List FieldText
  encodeBase : List String
  encodeExtension : List String
  decodeBase : List String
  decodeExtension : List String

namespace Code

/-- What the items of an attribute are read as. -/
def items? {α : Type} (c : Context) (name : String) (read : Context → Option α) :
    Option (List α) :=
  match c.get? name with
  | some (.list items) => items.mapM read
  | _ => none

/-- The texts of a field. -/
def field? (c : Context) : Option FieldText := do
  return ⟨← c.text? "ident", ← c.text? "rust_type", ← c.text? "zero"⟩

/-- The text of a statement. -/
def line? (c : Context) : Option String := c.text? "line"

/-- The texts that fill the module of a message. -/
def ofContext? (c : Context) : Option Code := do
  return {
    fields := ← items? c "fields" field?
    encodeBase := ← items? c "encode_base" line?
    encodeExtension := ← items? c "encode_ext" line?
    decodeBase := ← items? c "decode_base" line?
    decodeExtension := ← items? c "decode_ext" line? }

/-- Whether a struct has the fields of a module, each with a content of its type. -/
def Typed (code : Code) (r : Record) : Prop :=
  List.Forall₂ (fun f entry => entry.1 = f.ident ∧
    ∃ t, FieldType.read? f.type = some t ∧ t.Holds entry.2) code.fields r

/-- The default struct. -/
def zeros (code : Code) : Except Fault Record := code.fields.mapM FieldText.initial

/-- Runs lines of an encoder. -/
def runPut (r : Record) (lines : List String) (p : Payload) : Except Fault Payload :=
  lines.foldlM (fun p line => do (← need (Wording.put.read? line)).put r p) p

/-- Runs lines of a decoder. -/
def runGet (lines : List String) (r : Record) (p : Payload) : Except Fault (Record × Payload) :=
  lines.foldlM (fun state line => do (← need (Wording.get.read? line)).get state.1 state.2) (r, p)

/-- The lines that run for a version. Extensions are for extended frames only. -/
def linesFor (version : FrameVersion) (base extension : List String) : List String :=
  base ++ if version = .extended then extension else []

/-- The payload that the encoder gives for a struct. -/
def pack (code : Code) (order : ByteOrder) (version : FrameVersion) (r : Record) :
    Except Fault (List UInt8) := do
  let p ← runPut r (linesFor version code.encodeBase code.encodeExtension) (.empty order)
  return p.bytes

/-- The struct that the decoder gives for a payload. -/
def unpack (code : Code) (order : ByteOrder) (version : FrameVersion) (bytes : List UInt8) :
    Except Fault Record := do
  let zeros ← code.zeros
  let (r, _) ← runGet (linesFor version code.decodeBase code.decodeExtension) zeros
    (.received bytes order version)
  return r

end Code

end Generate

end Telemetry
