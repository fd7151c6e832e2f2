import Telemetry.Proofs.Description
import Telemetry.Proofs.Planning
import Telemetry.Proofs.Registration

/-!
# Accepted dialect files

What is known of a dialect that was read from a text, whatever the text is.

* `Reader.Gives`: what all that a reader takes has in common, with a rule for each way of building
  readers. `gives_dialectFile`: the names in a file are names.
* `Item.addTo_eq_ok`: what one item of a file can do to a dialect.
* `Dialect.Sealed`: messages have ids and names of their own, and each is as it was declared under
  the flags of the dialect. Every item keeps this.
* `dialectOf_eq_ok`: the file, the flags and the names of an accepted dialect.
* `DialectSet.exists_dispatchTable_single`: messages like these all find room in a dispatch table.
* `ofText_sound`: the dialect of an accepted text can be planned and dispatched.
-/

namespace Telemetry

namespace Source

/-! ## What readers give -/

namespace Reader

variable {α β : Type} {p q : Reader α} {f : α → Reader β} {P : α → Prop} {Q : β → Prop}

/-- All that a reader takes from texts has a property. -/
def Gives (p : Reader α) (P : α → Prop) : Prop :=
  ∀ cs notes a rest, (p cs notes).1 = some (a, rest) → P a

theorem gives_any (p : Reader α) : p.Gives fun _ => True := fun _ _ _ _ _ => trivial

theorem gives_pure {a : α} (h : P a) : Gives (pure a) P := by
  intro cs notes a' rest hread
  cases hread
  exact h

theorem gives_ofText {g : List Char → Option (α × List Char)}
    (h : ∀ cs a rest, g cs = some (a, rest) → P a) : (ofText g).Gives P :=
  fun cs _ a rest hread => h cs a rest hread

theorem Gives.bind (hp : p.Gives P) (hf : ∀ a, P a → (f a).Gives Q) : (p >>= f).Gives Q := by
  intro cs notes b rest hread
  simp only [Bind.bind, andThen] at hread
  split at hread
  · rename_i a rest' notes' hfirst
    exact hf a (hp cs notes a rest' (by rw [hfirst])) rest' notes' b rest hread
  · cases hread

/-- Of a first reader nothing need be known. -/
theorem Gives.skip (hf : ∀ a, (f a).Gives Q) : (p >>= f).Gives Q :=
  (gives_any p).bind fun a _ => hf a

theorem Gives.rule {r : Rule} (hp : p.Gives P) : (rule r p).Gives P := by
  intro cs notes a rest hread
  unfold Reader.rule at hread
  split at hread
  · rename_i hfirst
    exact hp cs notes a rest (by rw [hfirst]; exact hread)
  · cases hread

theorem Gives.orElse (hp : p.Gives P) (hq : q.Gives P) : (orElse p q).Gives P := by
  intro cs notes a rest hread
  unfold Reader.orElse at hread
  split at hread
  · rename_i hfirst
    exact hp cs notes a rest (by rw [hfirst]; exact hread)
  · exact hq cs _ a rest hread

theorem Gives.more (hp : p.Gives P) (fuel : Nat) : (more p fuel).Gives fun as => ∀ a ∈ as, P a := by
  induction fuel with
  | zero => exact gives_pure (by simp)
  | succ fuel ih =>
    intro cs notes as rest hread
    simp only [Reader.more] at hread
    split at hread
    · rename_i a rest' notes' hfirst
      have ha : P a := Gives.skip (p := gap) (fun _ => hp) cs notes a rest'
        (by simpa [Bind.bind] using congrArg Prod.fst hfirst)
      have hcons : (Reader.more p fuel >>= fun as => give (a :: as)).Gives fun as =>
          ∀ a ∈ as, P a := ih.bind fun as has => gives_pure (by simpa using ⟨ha, has⟩)
      exact hcons rest' notes' as rest hread
    · cases hread
      simp

theorem Gives.many (hp : p.Gives P) : (many p).Gives fun as => ∀ a ∈ as, P a := by
  intro cs notes as rest hread
  unfold Reader.many at hread
  split at hread
  · rename_i a rest' notes' hfirst
    have ha : P a := hp cs notes a rest' (by rw [hfirst])
    have hcons : (Reader.more p (rest'.length + 1) >>= fun as => give (a :: as)).Gives fun as =>
        ∀ a ∈ as, P a := (hp.more _).bind fun as has => gives_pure (by simpa using ⟨ha, has⟩)
    exact hcons rest' notes' as rest hread
  · cases hread
    simp

end Reader

open Reader Grammar

/-! ## Names in files -/

/-- The name that a header gives the dialect is a name. -/
def Header.Named (h : Header) : Prop := ∀ name, h.name? = some name → isName name = true

/-- The field of an item of a message has a name. -/
def MessageItem.Named : MessageItem → Prop
  | .extensions => True
  | .field f => isName f.name = true

/-- An item has a name, and so have the fields of a message. -/
def Item.Named : Item → Prop
  | .enumeration e => isName e.name = true
  | .message m => isName m.name = true ∧ ∀ item ∈ m.items, item.Named

theorem gives_ident : ident.Gives fun name => isName name = true := by
  refine .rule (gives_ofText fun cs name rest h => ?_)
  cases cs with
  | nil => cases h
  | cons c cs =>
    rw [identText?] at h
    split at h
    · rename_i hc
      cases h
      have hrest : (cs.takeWhile isIdentRest).all isIdentRest = true := by simp
      simp [isName, hc, hrest]
    · cases h

theorem gives_header : header.Gives Header.Named := by
  have hother {h : Header} (hname : h.name? = none) : h.Named := fun _ hn => by simp [hname] at hn
  refine .orElse ?_ (.orElse ?_ (.orElse ?_ ?_))
  · refine .rule (.skip fun _ => .skip fun _ => .bind gives_ident fun name hname => .skip fun _ =>
      .skip fun _ => gives_pure ?_)
    intro name' hname'
    cases hname'
    exact hname
  all_goals
    exact .rule (.skip fun _ => .skip fun _ => .skip fun _ => .skip fun _ => .skip fun _ =>
      gives_pure (hother rfl))

theorem gives_enumSection : enumSection.Gives fun e => isName e.name = true :=
  .rule (.skip fun _ => .skip fun _ => .bind gives_ident fun _ hname => .skip fun _ =>
    .skip fun _ => .skip fun _ => .skip fun _ => .skip fun _ => .skip fun _ => .skip fun _ =>
    .skip fun _ => gives_pure hname)

theorem gives_fieldDecl : fieldDecl.Gives fun f => isName f.name = true :=
  .rule (.bind gives_ident fun _ hname => .skip fun _ => .skip fun _ => .skip fun _ =>
    .skip fun _ => .skip fun _ => .skip fun _ => .skip fun _ => .skip fun _ => .skip fun _ =>
    .skip fun _ => gives_pure hname)

theorem gives_messageItem : messageItem.Gives MessageItem.Named :=
  .orElse (.skip fun _ => gives_pure trivial)
    (.bind gives_fieldDecl fun _ hname => gives_pure hname)

theorem gives_messageSection : messageSection.Gives fun m =>
    isName m.name = true ∧ ∀ item ∈ m.items, item.Named :=
  .rule (.skip fun _ => .skip fun _ => .bind gives_ident fun _ hname => .skip fun _ =>
    .skip fun _ => .skip fun _ => .skip fun _ => .skip fun _ => .skip fun _ => .skip fun _ =>
    .skip fun _ => .skip fun _ => .bind gives_messageItem.many fun _ hitems => .skip fun _ =>
    .skip fun _ => gives_pure ⟨hname, hitems⟩)

theorem gives_item : item.Gives Item.Named :=
  .orElse (.bind gives_enumSection fun _ hname => gives_pure hname)
    (.bind gives_messageSection fun _ hnames => gives_pure hnames)

/-- The names in a file are names. -/
theorem gives_dialectFile : dialectFile.Gives fun f =>
    (∀ h ∈ f.headers, h.Named) ∧ ∀ item ∈ f.items, item.Named :=
  .rule (.skip fun _ => .bind gives_header.many fun _ hheaders => .skip fun _ =>
    .bind gives_item.many fun _ hitems => .skip fun _ => .skip fun _ =>
    gives_pure ⟨hheaders, hitems⟩)

theorem named_of_readFile {text : List Char} {f : File} (h : readFile text = .ok f) :
    (∀ h ∈ f.headers, h.Named) ∧ ∀ item ∈ f.items, item.Named := by
  unfold readFile at h
  split at h
  · rename_i hread
    cases h
    exact gives_dialectFile text _ f _ (by rw [hread])
  · cases h

/-! ## Headers -/

theorem mem_settingNames {flags flags' : DialectFlags} {s : String}
    (h : applySetting flags s = .ok flags') : s ∈ settingNames := by
  unfold applySetting at h
  split at h
  all_goals simp_all [settingNames]

/-- What a further header does to the name and the flags. -/
theorem Heading.add_eq_ok {heading heading' : Heading} {h : Header}
    (hadd : heading.add h = .ok heading') :
    heading'.name = heading.name.or h.name? ∧
      (∀ settings, heading.flags = flagsOf settings →
        heading'.flags = flagsOf (settings ++ h.setting?.toList)) := by
  cases h with
  | dialect name =>
    simp only [Heading.add] at hadd
    split at hadd
    · cases hadd
    · rename_i hnone
      cases hadd
      exact ⟨by simp [hnone, Header.name?], fun settings hflags => by simp [hflags, Header.setting?]⟩
  | version n =>
    obtain ⟨v, -, hadd⟩ := bind_eq_ok_iff.1 hadd
    split at hadd
    · cases hadd
      exact ⟨by simp [Header.name?], fun settings hflags => by simp [hflags, Header.setting?]⟩
    · cases hadd
  | setting s =>
    obtain ⟨flags, hflags, hadd⟩ := bind_eq_ok_iff.1 hadd
    cases hadd
    refine ⟨by simp [Header.name?], fun settings hsettings => ?_⟩
    have happly := applySetting_flagsOf (mem_settingNames hflags) settings
    rw [← hsettings, hflags] at happly
    exact Except.ok.inj happly
  | inclusion name =>
    cases hadd
    exact ⟨by simp [Header.name?], fun settings hflags => by simp [hflags, Header.setting?]⟩

/-- The flags of a heading are those that its settings lead to, and its name is that of a header. -/
theorem foldlM_headers_eq_ok {headers : List Header} {heading : Heading}
    (h : headers.foldlM Heading.add {} = .ok heading) :
    heading.flags = flagsOf (headers.filterMap Header.setting?) ∧
      ∀ name, heading.name = some name → ∃ h ∈ headers, h.name? = some name := by
  induction headers using List.reverseRecOn generalizing heading with
  | nil =>
    cases h
    exact ⟨rfl, nofun⟩
  | append_singleton headers header ih =>
    simp only [List.foldlM_append, List.foldlM_cons, List.foldlM_nil, bind_pure] at h
    obtain ⟨before, hbefore, hadd⟩ := bind_eq_ok_iff.1 h
    obtain ⟨hflags, hname⟩ := ih hbefore
    obtain ⟨hname', hflags'⟩ := Heading.add_eq_ok hadd
    refine ⟨?_, fun name hn => ?_⟩
    · rw [filterMap_append_singleton]
      exact hflags' _ hflags
    · rw [hname', Option.or_eq_some_iff] at hn
      rcases hn with hn | ⟨-, hn⟩
      · obtain ⟨first, hfirst, hn⟩ := hname name hn
        exact ⟨first, List.mem_append_left _ hfirst, hn⟩
      · exact ⟨header, by simp, hn⟩

/-! ## Items -/

theorem FieldDecl.name_field {message : String} {decl : FieldDecl} {f : Field}
    (h : decl.field message = .ok f) : f.name = decl.name := by
  unfold FieldDecl.field at h
  split at h
  · cases h
    rfl
  · obtain ⟨n, -, h⟩ := bind_eq_ok_iff.1 h
    split at h
    · cases h
    · cases h
      rfl

theorem EnumDecl.name_enumDef {decl : EnumDecl} {e : EnumDef} (h : decl.enumDef = .ok e) :
    e.name = decl.name := by
  obtain ⟨entries, -, h⟩ := bind_eq_ok_iff.1 h
  cases h
  rfl

/-- The fields of a message come from its items. -/
theorem named_of_addItem {message : String} {items : List MessageItem}
    {state : List Field × Option Nat} (hitems : ∀ item ∈ items, item.Named)
    (h : items.foldlM (addItem message) ([], none) = .ok state) :
    ∀ f ∈ state.1, isName f.name = true := by
  refine foldlM_preserves (fun state : List Field × Option Nat =>
    ∀ f ∈ state.1, isName f.name = true) (by simp) ?_ h
  intro item hitem before after hbefore hadd
  cases item with
  | extensions =>
    simp only [addItem] at hadd
    split at hadd
    · cases hadd
    · cases hadd
      exact hbefore
  | field decl =>
    obtain ⟨f, hf, hadd⟩ := bind_eq_ok_iff.1 hadd
    cases hadd
    intro f' hf'
    rcases List.mem_append.1 hf' with hf' | hf'
    · exact hbefore f' hf'
    · rw [List.mem_singleton.1 hf', FieldDecl.name_field (mapError_eq_ok_iff.1 hf)]
      exact hitems _ hitem

/-- A message is as it was declared, but for its description. -/
theorem MessageDecl.message_eq_ok {flags : DialectFlags} {decl : MessageDecl} {m : Message}
    (h : decl.message flags = .ok m) :
    m.name = decl.name ∧
      Message.declare m.id m.name m.fields m.extensionsStart flags =
        .ok { m with description := none } ∧
      ((∀ item ∈ decl.items, item.Named) → ∀ f ∈ m.fields, isName f.name = true) := by
  obtain ⟨id, -, h⟩ := bind_eq_ok_iff.1 h
  obtain ⟨⟨fields, start⟩, hfields, h⟩ := bind_eq_ok_iff.1 h
  obtain ⟨declared, hdeclared, h⟩ := bind_eq_ok_iff.1 h
  rw [SchemaError.lift, mapError_eq_ok_iff] at hdeclared
  obtain ⟨-, -, -, order, -, -, rfl⟩ := Message.declare_eq_ok_iff.1 hdeclared
  cases h
  exact ⟨rfl, hdeclared, fun hitems => named_of_addItem hitems hfields⟩

theorem addMessage_eq_ok_iff {d d' : Dialect} {m : Message} :
    d.addMessage m = .ok d' ↔ m.id ∉ d.messages.map (·.id) ∧ m.name ∉ d.messages.map (·.name) ∧
      d' = { d with messages := d.messages ++ [m] } := by
  constructor
  · intro h
    unfold Dialect.addMessage at h
    split at h
    · cases h
    · cases h
    · rename_i hid hname
      cases h
      exact ⟨by simpa [Dialect.message?] using hid, by simpa [Dialect.messageNamed?] using hname,
        rfl⟩
  · rintro ⟨hid, hname, rfl⟩
    exact addMessage_eq_ok hid hname

/-- What an item does to a dialect: it adds an enumeration, or a message with an id and a name of
its own. -/
theorem Item.addTo_eq_ok {item : Item} {d d' : Dialect} (h : item.addTo d = .ok d') :
    (∃ decl e, item = .enumeration decl ∧ decl.enumDef = .ok e ∧
      d' = { d with enums := d.enums ++ [e] }) ∨
    (∃ decl m, item = .message decl ∧ decl.message d.flags = .ok m ∧
      m.id ∉ d.messages.map (·.id) ∧ m.name ∉ d.messages.map (·.name) ∧
      d' = { d with messages := d.messages ++ [m] }) := by
  cases item with
  | enumeration decl =>
    obtain ⟨e, he, h⟩ := bind_eq_ok_iff.1 h
    cases h
    exact .inl ⟨decl, e, rfl, mapError_eq_ok_iff.1 he, rfl⟩
  | message decl =>
    obtain ⟨m, hm, h⟩ := bind_eq_ok_iff.1 h
    rw [SchemaError.lift, mapError_eq_ok_iff] at h
    exact .inr ⟨decl, m, rfl, hm, addMessage_eq_ok_iff.1 h⟩

end Source

open Source

/-- What every dialect has that was read from a text. -/
structure Dialect.Sealed (d : Dialect) : Prop where
  ids : (d.messages.map (·.id)).Nodup
  names : (d.messages.map (·.name)).Nodup
  /-- Each message is as it was declared under the flags of the dialect. -/
  declared : ∀ m ∈ d.messages, Message.declare m.id m.name m.fields m.extensionsStart d.flags =
    .ok { m with description := none }

/-- The names in a dialect, its own apart, are names. -/
structure Dialect.Named (d : Dialect) : Prop where
  enums : ∀ e ∈ d.enums, isName e.name = true
  messages : ∀ m ∈ d.messages, isName m.name = true
  fields : ∀ m ∈ d.messages, ∀ f ∈ m.fields, isName f.name = true

theorem nodup_map_concat {α β : Type} {f : α → β} {xs : List α} {x : α} (h : (xs.map f).Nodup)
    (hx : f x ∉ xs.map f) : ((xs ++ [x]).map f).Nodup := by
  rw [List.map_append, List.map_singleton]
  exact List.nodup_append.2 ⟨h, List.nodup_singleton _, fun y hy z hz hyz =>
    hx (by rwa [← List.mem_singleton.1 hz, ← hyz])⟩

theorem Dialect.Sealed.addTo {item : Item} {d d' : Dialect} (hd : d.Sealed)
    (h : item.addTo d = .ok d') : d'.Sealed := by
  obtain ⟨decl, e, -, -, rfl⟩ | ⟨decl, m, -, hm, hid, hname, rfl⟩ := Item.addTo_eq_ok h
  · exact ⟨hd.ids, hd.names, hd.declared⟩
  · refine ⟨nodup_map_concat hd.ids hid, nodup_map_concat hd.names hname, fun m' hm' => ?_⟩
    rcases List.mem_append.1 hm' with hm' | hm'
    · exact hd.declared m' hm'
    · rw [List.mem_singleton.1 hm']
      exact (MessageDecl.message_eq_ok hm).2.1

theorem Dialect.Named.addTo {item : Item} {d d' : Dialect} (hd : d.Named) (hitem : item.Named)
    (h : item.addTo d = .ok d') : d'.Named := by
  obtain ⟨decl, e, rfl, he, rfl⟩ | ⟨decl, m, rfl, hm, -, -, rfl⟩ := Item.addTo_eq_ok h
  · refine ⟨fun e' he' => ?_, hd.messages, hd.fields⟩
    rcases List.mem_append.1 he' with he' | he'
    · exact hd.enums e' he'
    · rw [List.mem_singleton.1 he', EnumDecl.name_enumDef he]
      exact hitem
  · obtain ⟨hname, -, hfields⟩ := MessageDecl.message_eq_ok hm
    refine ⟨hd.enums, fun m' hm' => ?_, fun m' hm' => ?_⟩
    · rcases List.mem_append.1 hm' with hm' | hm'
      · exact hd.messages m' hm'
      · rw [List.mem_singleton.1 hm', hname]
        exact hitem.1
    · rcases List.mem_append.1 hm' with hm' | hm'
      · exact hd.fields m' hm'
      · rw [List.mem_singleton.1 hm']
        exact hfields hitem.2

theorem Source.heading_addTo {item : Item} {d d' : Dialect} (h : item.addTo d = .ok d') :
    d'.name = d.name ∧ d'.flags = d.flags := by
  obtain ⟨decl, e, -, -, rfl⟩ | ⟨decl, m, -, -, -, -, rfl⟩ := Item.addTo_eq_ok h
  · exact ⟨rfl, rfl⟩
  · exact ⟨rfl, rfl⟩

/-! ## Accepted texts -/

/-- What an accepted text says of its dialect. -/
theorem Source.dialectOf_eq_ok {text : String} {fallback : Option String} {d : Dialect}
    (h : dialectOf text fallback = .ok d) :
    d.Sealed ∧ d.Named ∧ (isName d.name = true ∨ fallback = some d.name) ∧
      ∃ f, readFile text.toList = .ok f ∧
        d.flags = flagsOf (f.headers.filterMap Header.setting?) := by
  obtain ⟨f, hread, h⟩ := bind_eq_ok_iff.1 h
  rw [liftFault, mapError_eq_ok_iff] at hread
  obtain ⟨hheaders, hitems⟩ := named_of_readFile hread
  obtain ⟨heading, hheading, h⟩ := bind_eq_ok_iff.1 h
  obtain ⟨hflags, hname⟩ := foldlM_headers_eq_ok (mapError_eq_ok_iff.1 hheading)
  split at h
  · cases h
  rename_i name hfound
  -- Name and flags are those of the headers, and no item changes them.
  have hhead : d.name = name ∧ d.flags = heading.flags := by
    refine foldlM_preserves (fun d : Dialect => d.name = name ∧ d.flags = heading.flags)
      ⟨rfl, rfl⟩ ?_ h
    rintro item - before after ⟨hn, hf⟩ hadd
    obtain ⟨hn', hf'⟩ := heading_addTo hadd
    exact ⟨hn'.trans hn, hf'.trans hf⟩
  refine ⟨?_, ?_, ?_, f, hread, hhead.2.trans hflags⟩
  · refine foldlM_preserves Dialect.Sealed ?_
      (fun item _ before after hbefore hadd => hbefore.addTo hadd) h
    exact ⟨List.nodup_nil, List.nodup_nil, List.forall_mem_nil _⟩
  · refine foldlM_preserves Dialect.Named ?_
      (fun item hitem before after hbefore hadd => hbefore.addTo (hitems item hitem) hadd) h
    exact ⟨List.forall_mem_nil _, List.forall_mem_nil _, List.forall_mem_nil _⟩
  · rw [hhead.1]
    cases hown : heading.name with
    | some own =>
      rw [hown] at hfound
      obtain rfl : own = name := Option.some.inj hfound
      obtain ⟨header, hheader, hn⟩ := hname own hown
      exact .inl (hheaders header hheader own hn)
    | none =>
      rw [hown] at hfound
      exact .inr hfound

theorem Dialect.isName_of_ofText {text : String} {d : Dialect} (h : Dialect.ofText text = .ok d) :
    isName d.name = true :=
  (dialectOf_eq_ok h).2.2.1.resolve_right nofun

theorem notMem_of_isName {name : String} (h : isName name = true) {x : Char}
    (hx : Grammar.isIdentStart x = false ∧ Grammar.isIdentRest x = false) : x ∉ name.toList := by
  obtain ⟨c, cs, hname, hc, hcs⟩ := exists_of_isName h
  rw [hname]
  intro hmem
  rcases List.mem_cons.1 hmem with rfl | hmem
  · exact Bool.false_ne_true (hx.1.symm.trans hc)
  · exact Bool.false_ne_true (hx.2.symm.trans (hcs x hmem))

/-! ## Plans and tables -/

theorem Dialect.Sealed.exists_plan {d : Dialect} (hd : d.Sealed) {m : Message}
    (hm : m ∈ d.messages) (sorted : Bool) : ∃ plan, LayoutPlan.ofMessage m sorted = .ok plan :=
  LayoutPlan.exists_ofMessage (hd.declared m hm) sorted

namespace DialectSet

/-- The dispatch table of a set that holds a single dialect. -/
theorem exists_dispatchTable_single {d : Dialect} (hd : d.Sealed) (hincludes : d.includes = []) :
    ∃ table, dispatchTable { dialects := [d] } [d.name] = .ok table ∧
      table.size = d.messages.length ∧
      ∀ id e, table.get? id = some e ↔ ∃ m ∈ d.messages, m.id = id ∧ entry d m = .ok e := by
  have hmessages : messagesOf [d] = d.messages.map (d, ·) := by simp [messagesOf]
  obtain ⟨table, htable⟩ : ∃ table, [d].foldlM addDialect {} = .ok table := by
    refine (exists_addDialect_iff fun d' hd' m hm => ?_).2 ?_
    · rw [List.mem_singleton.1 hd'] at hm ⊢
      exact hd.exists_plan hm _
    · rw [hmessages, List.map_map, List.map_map]
      exact ⟨hd.ids, hd.names⟩
  have hclosure : closure { dialects := [d] } d.name = .ok [d] := by
    simp [closure, get?, visit, hincludes, bind, Except.bind, pure, Except.pure]
  obtain ⟨es, hes, hholds⟩ := holds_of_addDialect htable
  refine ⟨table, ?_, ?_, fun id e => ?_⟩
  · exact (dispatchTable_eq_ok_iff (by simp) (by simp)).2 ⟨by simpa using ⟨_, hclosure⟩, htable⟩
  · rw [hholds.size, ← (mapM_eq_ok_iff.1 hes).length_eq, hmessages, List.length_map]
  · rw [get?_iff_of_entries hes hholds, hmessages]
    simp [entry_eq_ok_iff]

end DialectSet

/-- **Accepted texts are sound.** In the dialect of an accepted text, messages have ids and names of
their own. Each is, but for its description, what is declared from its own parts under the flags
that all headers together lead to, and it can be planned. A set of this dialect alone, if it
includes nothing, has a dispatch table with one entry for each message and no other. -/
theorem ofText_sound {text : String} {d : Dialect} (h : Dialect.ofText text = .ok d) :
    (d.messages.map (·.id)).Nodup ∧ (d.messages.map (·.name)).Nodup ∧
    (∃ f, readFile text.toList = .ok f ∧
      d.flags = flagsOf (f.headers.filterMap Header.setting?)) ∧
    (∀ m ∈ d.messages,
      Message.declare m.id m.name m.fields m.extensionsStart d.flags =
        .ok { m with description := none } ∧
      m.id ≤ 0xFFFFFF ∧ (m.fields.map (·.name)).Nodup ∧
      (∀ start, m.extensionsStart = some start → 1 ≤ start ∧ start ≤ m.fields.length) ∧
      m.fullLength ≤ 255 ∧
      ∃ plan, LayoutPlan.ofMessage m d.flags.sortFields = .ok plan) ∧
    (d.includes = [] → ∃ s table, DialectSet.insert {} d = .ok s ∧
      s.dispatchTable [d.name] = .ok table ∧ table.size = d.messages.length ∧
      ∀ id e, table.get? id = some e ↔
        ∃ m ∈ d.messages, m.id = id ∧ DialectSet.entry d m = .ok e) := by
  obtain ⟨hd, -, -, hfile⟩ := dialectOf_eq_ok h
  refine ⟨hd.ids, hd.names, hfile, fun m hm => ?_, fun hincludes => ?_⟩
  · have hdeclared := hd.declared m hm
    obtain ⟨hid, hfields, hstart, order, -, hlength, hsealed⟩ :=
      Message.declare_eq_ok_iff.1 hdeclared
    have hfull : m.fullLength = order.fullLength := congrArg Message.fullLength hsealed
    exact ⟨hdeclared, hid, hfields, hstart, hfull ▸ hlength, hd.exists_plan hm _⟩
  · obtain ⟨table, htable, hsize, hentries⟩ := DialectSet.exists_dispatchTable_single hd hincludes
    exact ⟨{ dialects := [d] }, table, rfl, htable, hsize, hentries⟩

/-- A file that turns a setting on and off again, in front of two messages. -/
def Source.File.togglesText : String :=
  "dialect t; option no_sort_fields; option sort_fields; option no_crc_extra; " ++
    "message A = 1 \"first\" \x7b a: uint8_t; b: uint32_t; extensions; c: char[4]; \x7d " ++
    "message B = 0x10 \x7b \x7d"

/-- The dialect of the file. -/
def Dialect.toggles : Dialect where
  name := "t"
  flags := { fingerprints := false }
  messages :=
    [{ id := 1, name := "A", description := some "first"
       fields := [⟨"a", "uint8_t", 0, none⟩, ⟨"b", "uint32_t", 0, none⟩, ⟨"c", "char", 4, none⟩]
       extensionsStart := some 2, fingerprint := 0, baseLength := 5, fullLength := 9 },
      { id := 16, name := "B", fields := [], fingerprint := 0, baseLength := 0, fullLength := 0 }]

theorem ofText_sound_toggles :
    Dialect.ofText File.togglesText = .ok Dialect.toggles ∧
      (∃ f, readFile File.togglesText.toList = .ok f ∧
        Dialect.toggles.flags = flagsOf (f.headers.filterMap Header.setting?)) ∧
      ∃ s table, DialectSet.insert {} Dialect.toggles = .ok s ∧
        s.dispatchTable ["t"] = .ok table ∧ table.size = 2 := by
  have h : Dialect.ofText File.togglesText = .ok Dialect.toggles :=
    eq_ok_of_toOption (by decide +kernel)
  obtain ⟨-, -, hfile, -, htable⟩ := ofText_sound h
  obtain ⟨s, table, hs, htable, hsize, -⟩ := htable rfl
  exact ⟨h, hfile, s, table, hs, htable, hsize⟩

end Telemetry
