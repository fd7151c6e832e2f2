import Mathlib.Data.List.Forall2
import Mathlib.Data.List.Induction
import Telemetry.Proofs.Except
import Telemetry.Proofs.Layout
import Telemetry.Proofs.Writing

/-!
# What dialect files describe

The dialect that a file describes, said without a procedure: which header or item each of its parts
comes from. Every text of such a file is accepted and gives that dialect.

* `Numeral.Denotes`: the spellings of a number.
* `flagsOf`: the flags that settings lead to, of which the last of each pair counts.
* `FieldDecl.Describes`, `MessageDecl.Describes` and so on: the parts of a file.
* `File.Describes`: a file and its dialect.
* `ofText_of_written`: a text of a file is accepted with the dialect that the file describes.
-/

namespace Telemetry.Source

open Reader

/-! ## Numbers -/

/-- A number is spelled with its digits behind any zeros. To base 16 letters may be of either
case. -/
inductive Numeral.Denotes : Numeral → Nat → Prop where
  | decimal (zeros n : Nat) :
    Denotes (.decimal (List.replicate zeros '0' ++ Nat.toDigits 10 n)) n
  | hexadecimal {mark : Char} {digits : List Char} (zeros n : Nat) :
    List.Forall₂ (fun c d => c = d ∨ c = d.toUpper) digits
      (List.replicate zeros '0' ++ Nat.toDigits 16 n) →
    Denotes (.hexadecimal mark digits) n

theorem digitValue_digitChar {k : Nat} (h : k < 16) :
    digitValue k.digitChar = k ∧ digitValue k.digitChar.toUpper = k := by
  revert k
  decide

theorem digitsValue_append_singleton (base : Nat) (digits : List Char) (c : Char) :
    digitsValue base (digits ++ [c]) = digitsValue base digits * base + digitValue c := by
  simp [digitsValue]

theorem digitsValue_zeros (base zeros : Nat) (digits : List Char) :
    digitsValue base (List.replicate zeros '0' ++ digits) = digitsValue base digits := by
  induction zeros with
  | zero => rfl
  | succ zeros ih =>
    rw [List.replicate_succ, List.cons_append, ← ih]
    have hzero : digitValue '0' = 0 := by decide
    simp [digitsValue, hzero]

theorem digitsValue_toDigits {base : Nat} (hbase : 1 < base) (hle : base ≤ 16) (n : Nat) :
    digitsValue base (Nat.toDigits base n) = n := by
  induction n using Nat.strongRecOn with
  | ind n ih =>
    rcases Nat.lt_or_ge n base with hlt | hge
    · have hdigit := (digitValue_digitChar (Nat.lt_of_lt_of_le hlt hle)).1
      simp [Nat.toDigits_of_lt_base hlt, digitsValue, hdigit]
    · have hmod := Nat.mod_lt n (Nat.zero_lt_of_lt hbase)
      rw [Nat.toDigits_of_base_le hbase hge, digitsValue_append_singleton,
        ih (n / base) (Nat.div_lt_self (by omega) hbase),
        (digitValue_digitChar (Nat.lt_of_lt_of_le hmod hle)).1, Nat.mul_comm]
      exact Nat.div_add_mod n base

theorem mem_toDigits {base : Nat} (hbase : 1 < base) (n : Nat) :
    ∀ d ∈ Nat.toDigits base n, ∃ k < base, d = k.digitChar := by
  induction n using Nat.strongRecOn with
  | ind n ih =>
    rcases Nat.lt_or_ge n base with hlt | hge
    · rw [Nat.toDigits_of_lt_base hlt]
      simpa using ⟨n, hlt, rfl⟩
    · rw [Nat.toDigits_of_base_le hbase hge]
      intro d hd
      rcases List.mem_append.1 hd with hd | hd
      · exact ih (n / base) (Nat.div_lt_self (by omega) hbase) d hd
      · exact ⟨n % base, Nat.mod_lt n (by omega), List.mem_singleton.1 hd⟩

/-- The case of letters does not matter. -/
theorem digitsValue_cases {digits ds : List Char}
    (h : List.Forall₂ (fun c d => c = d ∨ c = d.toUpper) digits ds)
    (hds : ∀ d ∈ ds, ∃ k < 16, d = k.digitChar) : digitsValue 16 digits = digitsValue 16 ds := by
  have hmap : digits.map digitValue = ds.map digitValue := by
    induction h with
    | nil => rfl
    | @cons c d digits ds hc _ ih =>
      obtain ⟨k, hk, rfl⟩ := hds d List.mem_cons_self
      have hdigit := digitValue_digitChar hk
      have hvalue : digitValue c = digitValue k.digitChar := by
        rcases hc with rfl | rfl
        · rfl
        · rw [hdigit.1, hdigit.2]
      rw [List.map_cons, List.map_cons, hvalue, ih fun d hd => hds d (List.mem_cons_of_mem _ hd)]
  have hfold : ∀ l : List Char,
      digitsValue 16 l = (l.map digitValue).foldl (fun n v => n * 16 + v) 0 := by
    intro l
    rw [List.foldl_map]
    rfl
  rw [hfold, hfold, hmap]

theorem Numeral.Denotes.value_eq {n : Numeral} {v : Nat} (h : n.Denotes v) : n.value = v := by
  cases h with
  | decimal zeros =>
    rw [Numeral.value, digitsValue_zeros, digitsValue_toDigits (by decide) (by decide)]
  | hexadecimal zeros _ hdigits =>
    rw [Numeral.value, digitsValue_cases hdigits, digitsValue_zeros,
      digitsValue_toDigits (by decide) (by decide)]
    intro d hd
    rcases List.mem_append.1 hd with hd | hd
    · exact ⟨0, by decide, List.eq_of_mem_replicate hd⟩
    · exact mem_toDigits (by decide) v d hd

theorem Numeral.Denotes.read_eq {n : Numeral} {v : Nat} (h : n.Denotes v)
    (hv : v ≤ Numeral.maxValue) : n.read = .ok v := by
  simp [Numeral.read, Numeral.value?, h.value_eq, hv]

/-! ## Headers -/

namespace Header

/-- The name that a header gives the dialect. -/
def name? : Header → Option String
  | .dialect name => some name
  | _ => none

/-- The version that a header gives the dialect. -/
def version? : Header → Option Numeral
  | .version n => some n
  | _ => none

/-- The setting of a header. -/
def setting? : Header → Option String
  | .setting name => some name
  | _ => none

/-- The dialect that a header includes. -/
def inclusion? : Header → Option String
  | .inclusion name => some name
  | _ => none

end Header

/-- Whether the first of two settings is on: the one that comes last counts, and without any the
default. -/
def lastOf (settings : List String) (on off : String) (default : Bool) : Bool :=
  match (settings.filter fun s => s = on || s = off).getLast? with
  | some s => s = on
  | none => default

/-- The flags that settings lead to. -/
def flagsOf (settings : List String) : DialectFlags where
  order := if lastOf settings "big_endian" "little_endian" false then .big else .little
  fingerprints := lastOf settings "crc_extra" "no_crc_extra" true
  sortFields := lastOf settings "sort_fields" "no_sort_fields" true

/-- The settings that there are. -/
def settingNames : List String :=
  ["little_endian", "big_endian", "crc_extra", "no_crc_extra", "sort_fields", "no_sort_fields"]

theorem lastOf_append_singleton (settings : List String) (s on off : String) (default : Bool) :
    lastOf (settings ++ [s]) on off default =
      if s = on then true else if s = off then false else lastOf settings on off default := by
  by_cases hon : s = on
  · simp [lastOf, hon]
  · by_cases hoff : s = off
    · subst hoff
      simp [lastOf, hon]
    · simp [lastOf, hon, hoff]

/-- A setting counts from its place on. -/
theorem applySetting_flagsOf {s : String} (hs : s ∈ settingNames) (settings : List String) :
    applySetting (flagsOf settings) s = .ok (flagsOf (settings ++ [s])) := by
  simp only [settingNames, List.mem_cons, List.not_mem_nil, or_false] at hs
  rcases hs with rfl | rfl | rfl | rfl | rfl | rfl <;>
    simp [applySetting, flagsOf, lastOf_append_singleton]

/-- A header that can stand in a file: it gives a version that is a byte, and a setting that there
is. -/
def Header.Valid (h : Header) : Prop :=
  (∀ n, h.version? = some n → ∃ v : UInt8, n.Denotes v.toNat) ∧
    ∀ s, h.setting? = some s → s ∈ settingNames

/-- What headers say, taken together. -/
def headingOf (headers : List Header) : Heading where
  name := (headers.filterMap Header.name?).head?
  version := (headers.filterMap Header.version?).getLast?.map (·.value.toUInt8)
  flags := flagsOf (headers.filterMap Header.setting?)
  includes := headers.filterMap Header.inclusion?

theorem Numeral.Denotes.byte {n : Numeral} {v : UInt8} (h : n.Denotes v.toNat) :
    n.read = .ok v.toNat ∧ v.toNat < 256 ∧ n.value.toUInt8 = v := by
  have hlt : v.toNat < 256 := UInt8.toNat_lt v
  refine ⟨h.read_eq ?_, hlt, ?_⟩
  · exact Nat.le_trans (Nat.le_of_lt hlt) (by decide)
  · rw [h.value_eq]
    simp

theorem filterMap_append_singleton {α β : Type} (p : α → Option β) (xs : List α) (x : α) :
    (xs ++ [x]).filterMap p = xs.filterMap p ++ (p x).toList := by
  cases h : p x <;> simp [List.filterMap_append, h]

theorem add_headingOf {headers : List Header} {h : Header} (hh : h.Valid)
    (hnames : ((headers ++ [h]).filterMap Header.name?).length ≤ 1) :
    (headingOf headers).add h = .ok (headingOf (headers ++ [h])) := by
  simp only [headingOf, filterMap_append_singleton] at hnames ⊢
  cases h with
  | dialect name =>
    have hnil : headers.filterMap Header.name? = [] := by simpa [Header.name?] using hnames
    simp [Heading.add, hnil, Header.name?, Header.version?, Header.setting?, Header.inclusion?]
  | version n =>
    obtain ⟨v, hv⟩ := hh.1 n rfl
    obtain ⟨hread, hlt, hbyte⟩ := hv.byte
    simp [Heading.add, hread, hlt, hbyte, Header.name?, Header.version?, Header.setting?,
      Header.inclusion?, bind, Except.bind, pure, Except.pure]
  | setting s =>
    have hs := applySetting_flagsOf (hh.2 s rfl) (headers.filterMap Header.setting?)
    simp [Heading.add, hs, Header.name?, Header.version?, Header.setting?, Header.inclusion?, bind,
      Except.bind, pure, Except.pure]
  | inclusion name =>
    simp [Heading.add, Header.name?, Header.version?, Header.setting?, Header.inclusion?]

theorem foldlM_headers {headers : List Header} (hvalid : ∀ h ∈ headers, h.Valid)
    (hnames : (headers.filterMap Header.name?).length ≤ 1) :
    headers.foldlM Heading.add {} = .ok (headingOf headers) := by
  induction headers using List.reverseRecOn with
  | nil => rfl
  | append_singleton headers h ih =>
    have hnames' : (headers.filterMap Header.name?).length ≤ 1 := by
      rw [List.filterMap_append, List.length_append] at hnames
      omega
    have hfirst := ih (fun h' hh' => hvalid h' (List.mem_append_left _ hh')) hnames'
    simp only [List.foldlM_append, List.foldlM_cons, List.foldlM_nil, bind_pure, hfirst]
    exact add_headingOf (hvalid h (by simp)) hnames

/-! ## Items -/

/-- An entry of an enumeration. Its value fits in 64 bits. -/
structure EntryDecl.Describes (decl : EntryDecl) (e : EnumEntry) : Prop where
  name : e.name = decl.name
  value : decl.value.Denotes e.value
  fits : e.value ≤ Numeral.maxValue
  description : e.description = decl.description

theorem EntryDecl.Describes.entry_eq {decl : EntryDecl} {e : EnumEntry} (h : decl.Describes e) :
    decl.entry = .ok e := by
  obtain ⟨name, value, description⟩ := e
  obtain ⟨rfl, hvalue, hfits, rfl⟩ := h
  simp [EntryDecl.entry, hvalue.read_eq hfits, bind, Except.bind, pure, Except.pure]

/-- An enumeration. -/
structure EnumDecl.Describes (decl : EnumDecl) (e : EnumDef) : Prop where
  name : e.name = decl.name
  description : e.description = decl.description
  entries : List.Forall₂ EntryDecl.Describes decl.entries e.entries

theorem EnumDecl.Describes.enumDef_eq {decl : EnumDecl} {e : EnumDef} (h : decl.Describes e) :
    decl.enumDef = .ok e := by
  obtain ⟨name, description, entries⟩ := e
  obtain ⟨rfl, rfl, hentries⟩ := h
  have hmap : decl.entries.mapM (·.entry) = .ok entries :=
    mapM_eq_ok_iff.2 (hentries.imp fun _ _ h => h.entry_eq)
  simp [EnumDecl.enumDef, hmap, bind, Except.bind, pure, Except.pure]

/-- An array length. A field without one is no array. -/
inductive LengthDescribes : Option Numeral → Nat → Prop where
  | none : LengthDescribes none 0
  | some {n : Numeral} {length : Nat} : n.Denotes length → 1 ≤ length →
    length ≤ Numeral.maxValue → LengthDescribes (some n) length

/-- A field of a message. -/
structure FieldDecl.Describes (decl : FieldDecl) (f : Field) : Prop where
  name : f.name = decl.name
  tag : f.tag = decl.tag
  arrayLength : LengthDescribes decl.arrayLength f.arrayLength
  description : f.description = decl.description

theorem FieldDecl.Describes.field_eq {decl : FieldDecl} {f : Field} (h : decl.Describes f)
    (message : String) : decl.field message = .ok f := by
  obtain ⟨name, tag, arrayLength, description⟩ := f
  obtain ⟨name', tag', number?, description'⟩ := decl
  obtain ⟨rfl, rfl, hlength, rfl⟩ := h
  unfold FieldDecl.field
  cases hlength with
  | none => rfl
  | some hn hpos hfits =>
    simp [hn.read_eq hfits, Nat.pos_iff_ne_zero.1 hpos, bind, Except.bind, pure, Except.pure]

/-- What stands between the braces of a message: fields, and perhaps a mark behind which they are
extensions. -/
inductive ItemsDescribe : List MessageItem → List Field → Option Nat → Prop where
  | plain {decls : List FieldDecl} {fields : List Field} :
    List.Forall₂ FieldDecl.Describes decls fields →
    ItemsDescribe (decls.map .field) fields none
  | extended {base extension : List FieldDecl} {fields extensions : List Field} :
    List.Forall₂ FieldDecl.Describes base fields →
    List.Forall₂ FieldDecl.Describes extension extensions →
    ItemsDescribe (base.map .field ++ .extensions :: extension.map .field) (fields ++ extensions)
      (some fields.length)

theorem foldlM_fields {decls : List FieldDecl} {fields : List Field}
    (h : List.Forall₂ FieldDecl.Describes decls fields) (message : String) (before : List Field)
    (start : Option Nat) :
    (decls.map MessageItem.field).foldlM (addItem message) (before, start) =
      .ok (before ++ fields, start) := by
  induction h generalizing before with
  | nil => simp [pure, Except.pure]
  | @cons decl f decls fields hf _ ih =>
    have hrest := ih (before ++ [f])
    rw [List.append_assoc, List.singleton_append] at hrest
    rw [List.map_cons, List.foldlM_cons, addItem, hf.field_eq]
    exact hrest

theorem ItemsDescribe.foldlM_eq {items : List MessageItem} {fields : List Field}
    {start : Option Nat} (h : ItemsDescribe items fields start) (message : String) :
    items.foldlM (addItem message) ([], none) = .ok (fields, start) := by
  cases h with
  | plain hfields => exact foldlM_fields hfields message [] none
  | extended hbase hextension =>
    rw [List.foldlM_append, foldlM_fields hbase message [] none]
    exact foldlM_fields hextension message _ _

/-- A message, which is one that can be declared. -/
structure MessageDecl.Describes (flags : DialectFlags) (decl : MessageDecl) (m : Message) :
    Prop where
  name : m.name = decl.name
  id : decl.id.Denotes m.id
  description : m.description = decl.description
  items : ItemsDescribe decl.items m.fields m.extensionsStart
  declared : Message.declare m.id m.name m.fields m.extensionsStart flags =
    .ok { m with description := none }

theorem MessageDecl.Describes.message_eq {flags : DialectFlags} {decl : MessageDecl} {m : Message}
    (h : decl.Describes flags m) : decl.message flags = .ok m := by
  obtain ⟨hid, -⟩ := Message.declare_eq_ok_iff.1 h.declared
  have hmax : FrameVersion.extended.maxId ≤ maxIdRead := by decide
  have hread : decl.id.read = .ok m.id :=
    h.id.read_eq (Nat.le_trans (Nat.le_trans hid hmax) (by decide))
  have hmin : min m.id maxIdRead = m.id := Nat.min_eq_left (Nat.le_trans hid hmax)
  unfold MessageDecl.message
  rw [hread, ← h.name, h.items.foldlM_eq]
  simp [liftFault, SchemaError.lift, Except.mapError, hmin, h.declared, ← h.description, bind,
    Except.bind, pure, Except.pure]

namespace Item

/-- The enumeration of an item. -/
def enum? : Item → Option EnumDecl
  | .enumeration e => some e
  | .message _ => none

/-- The message of an item. -/
def message? : Item → Option MessageDecl
  | .enumeration _ => none
  | .message m => some m

end Item

theorem addMessage_eq_ok {d : Dialect} {m : Message} (hid : m.id ∉ d.messages.map (·.id))
    (hname : m.name ∉ d.messages.map (·.name)) :
    d.addMessage m = .ok { d with messages := d.messages ++ [m] } := by
  have hid' : d.message? m.id = none := by simpa [Dialect.message?] using hid
  have hname' : d.messageNamed? m.name = none := by simpa [Dialect.messageNamed?] using hname
  simp [Dialect.addMessage, hid', hname']

theorem notMem_of_nodup_map {α β : Type} {f : α → β} {xs ys : List α} {x : α}
    (h : ((xs ++ x :: ys).map f).Nodup) : f x ∉ xs.map f := by
  rw [List.map_append, List.map_cons] at h
  exact fun hx => (List.nodup_append.1 h).2.2 _ hx _ List.mem_cons_self rfl

theorem foldlM_items {items : List Item} {enums : List EnumDef} {messages : List Message}
    {d : Dialect} (henums : List.Forall₂ EnumDecl.Describes (items.filterMap Item.enum?) enums)
    (hmessages : List.Forall₂ (MessageDecl.Describes d.flags) (items.filterMap Item.message?)
      messages)
    (hids : ((d.messages ++ messages).map (·.id)).Nodup)
    (hnames : ((d.messages ++ messages).map (·.name)).Nodup) :
    items.foldlM Item.addTo d = .ok
      { d with enums := d.enums ++ enums, messages := d.messages ++ messages } := by
  induction items generalizing d enums messages with
  | nil =>
    cases henums
    cases hmessages
    simp [pure, Except.pure]
  | cons item items ih =>
    rw [List.foldlM_cons]
    cases item with
    | enumeration decl =>
      obtain ⟨e, others, he, hothers, rfl⟩ := List.forall₂_cons_left_iff.1 henums
      have hrest := @ih others messages { d with enums := d.enums ++ [e] } hothers hmessages hids
        hnames
      rw [List.append_assoc, List.singleton_append] at hrest
      rw [Item.addTo, he.enumDef_eq]
      exact hrest
    | message decl =>
      obtain ⟨m, others, hm, hothers, rfl⟩ := List.forall₂_cons_left_iff.1 hmessages
      have hadd := addMessage_eq_ok (notMem_of_nodup_map hids) (notMem_of_nodup_map hnames)
      rw [← List.singleton_append, ← List.append_assoc] at hids hnames ⊢
      have hrest := @ih enums others { d with messages := d.messages ++ [m] } henums hothers hids
        hnames
      rw [Item.addTo, hm.message_eq]
      exact bind_eq_ok_iff.2 ⟨_, mapError_eq_ok_iff.2 hadd, hrest⟩

/-! ## Files -/

/-- A file and the dialect that it describes. -/
structure File.Describes (f : File) (d : Dialect) : Prop where
  headers : ∀ h ∈ f.headers, h.Valid
  name : f.headers.filterMap Header.name? = [d.name]
  version : Option.Rel (fun n v => n.Denotes v.toNat)
    (f.headers.filterMap Header.version?).getLast? d.version
  flags : d.flags = flagsOf (f.headers.filterMap Header.setting?)
  includes : d.includes = f.headers.filterMap Header.inclusion?
  enums : List.Forall₂ EnumDecl.Describes (f.items.filterMap Item.enum?) d.enums
  messages : List.Forall₂ (MessageDecl.Describes d.flags) (f.items.filterMap Item.message?)
    d.messages
  ids : (d.messages.map (·.id)).Nodup
  names : (d.messages.map (·.name)).Nodup

theorem File.Describes.version_eq {f : File} {d : Dialect} (h : f.Describes d) :
    (headingOf f.headers).version = d.version := by
  have hrel := h.version
  rw [headingOf]
  generalize (f.headers.filterMap Header.version?).getLast? = last at hrel
  generalize d.version = version at hrel
  cases hrel with
  | none => rfl
  | some hv => simp [hv.byte.2.2]

/-- A file has the dialect that it describes. -/
theorem File.Describes.dialect_eq {f : File} {d : Dialect} (h : f.Describes d)
    (fallback : Option String) : f.dialect fallback = .ok d := by
  have hheading := foldlM_headers h.headers (by simp [h.name])
  have hname : (headingOf f.headers).name = some d.name := by simp [headingOf, h.name]
  have hflags : (headingOf f.headers).flags = d.flags := h.flags.symm
  have hincludes : (headingOf f.headers).includes = d.includes := h.includes.symm
  have hitems := @foldlM_items f.items d.enums d.messages
    { name := d.name, version := d.version, flags := d.flags, includes := d.includes }
    h.enums h.messages h.ids h.names
  simp only [File.dialect, hheading, liftFault, Except.mapError, bind, Except.bind, hname,
    h.version_eq, hflags, hincludes]
  exact hitems

end Telemetry.Source

namespace Telemetry

open Source

/-- **Every text of a dialect file is accepted, and gives the dialect that the file describes.** It
does not matter how numbers and texts are spelled, and what stands between the tokens. -/
theorem ofText_of_written {f : File} {d : Dialect} (hf : f.Describes d) {ts : List Token}
    (hts : f.Written ts) {text : String} (htext : Lays ts text.toList) :
    Dialect.ofText text = .ok d := by
  have hread := readFile_of_written hts htext
  simp only [Dialect.ofText, dialectOf, hread]
  exact hf.dialect_eq none

/-- A file with a field that is named like the mark of extensions, and a description with a
quote. -/
def Source.File.note : File where
  headers := [.dialect "base", .setting "big_endian"]
  items := [.message
    { name := "NOTE", id := .hexadecimal 'x' ['0', 'C'], description := some "a\"\n"
      items := [.field ⟨"extensions", "uint8_t", none, none⟩, .extensions,
        .field ⟨"text", "char", some (.decimal ['4']), none⟩] }]

/-- The dialect that it describes. -/
def Dialect.note : Dialect where
  name := "base"
  flags := { order := .big }
  messages :=
    [{ id := 12, name := "NOTE", description := some "a\"\n"
       fields := [⟨"extensions", "uint8_t", 0, none⟩, ⟨"text", "char", 4, none⟩]
       extensionsStart := some 1, fingerprint := 117, baseLength := 1, fullLength := 5 }]

/-- A text of the file, with a comment behind each token. -/
def Source.File.noteText : String :=
  "dialect/**/base/**/;/**/option/**/big_endian/**/;/**/message/**/NOTE/**/=/**/0x0C/**/" ++
    "\"a\\\"\\n\"/**/\x7b/**/extensions/**/:/**/uint8_t/**/;/**/extensions/**/;/**/" ++
    "text/**/:/**/char/**/[/**/4/**/]/**/;/**/\x7d/**/"

theorem ofText_of_written_note :
    File.note.Describes Dialect.note ∧ (∃ ts, File.note.Written ts ∧ Lays ts File.noteText.toList) ∧
      Dialect.ofText File.noteText = .ok Dialect.note := by
  have hid : (Numeral.hexadecimal 'x' ['0', 'C']).Denotes 12 :=
    .hexadecimal 1 12 (.cons (.inl rfl) (.cons (.inr rfl) .nil))
  have hmessage : MessageDecl.Describes { order := .big }
      { name := "NOTE", id := .hexadecimal 'x' ['0', 'C'], description := some "a\"\n"
        items := [.field ⟨"extensions", "uint8_t", none, none⟩, .extensions,
          .field ⟨"text", "char", some (.decimal ['4']), none⟩] }
      (Dialect.note.messages.head (by decide)) :=
    { name := rfl, id := hid, description := rfl
      items := @ItemsDescribe.extended [_] [_] [_] [_] (.cons ⟨rfl, rfl, .none, rfl⟩ .nil)
        (.cons ⟨rfl, rfl, .some (.decimal 0 4) (by decide) (by decide), rfl⟩ .nil)
      declared := by decide +kernel }
  have hheaders : ∀ h ∈ File.note.headers, h.Valid := by
    simp [File.note, Header.Valid, Header.version?, Header.setting?, settingNames]
  have hdescribes : File.note.Describes Dialect.note :=
    { headers := hheaders, name := rfl, version := .none, flags := by decide, includes := rfl
      enums := .nil, messages := .cons hmessage .nil, ids := by decide, names := by decide }
  have hspells : Spells "a\"\n".toList ['a', '\\', '"', '\\', 'n'] :=
    .plain (by decide) (by decide) (.escaped (by decide) (by decide) (.newline .nil))
  have hgap : Gap ['/', '*', '*', '/'] := @Gap.block [] _ (by simp) .nil
  obtain ⟨ts, hwritten, htext⟩ : ∃ ts, File.note.Written ts ∧
      File.noteText = String.ofList (ts.flatMap fun t => t.chars ++ ['/', '*', '*', '/']) := by
    refine ⟨_, .mk (.cons (.dialect rfl) (.cons (.setting rfl) .nil))
      (.cons (.message (.mk rfl rfl (.some hspells) (.cons (.field (.mk rfl rfl .none .none))
        (.cons .extensions (.cons (.field (.mk rfl rfl (.some rfl) .none)) .nil))))) .nil), ?_⟩
    decide +kernel
  have hlays : Lays ts File.noteText.toList := by
    rw [htext, String.toList_ofList]
    exact lays_flatMap hgap (by decide) ts
  exact ⟨hdescribes, ⟨ts, hwritten, hlays⟩, ofText_of_written hdescribes hwritten hlays⟩

end Telemetry
