import Telemetry.Proofs.Readers
import Telemetry.Source.Dialect

/-!
# Writing dialect files

How the tree of a dialect file is written in tokens, and that every text of these tokens is read as
that tree.

* `Spells`: the ways to write a text between quotes.
* `Header.Written`, `Item.Written` and so on: the tokens of the parts of a file.
* `File.Written`: the tokens of a file.
* `readFile_of_written`: a text of these tokens is read as the file.
-/

namespace Telemetry.Source

open Reader Grammar

/-! ## Names, numbers and texts in quotes -/

/-- A class of characters that holds none which can begin a gap. -/
def Dense (isMember : Char → Bool) : Prop :=
  ∀ c, isSpace c = true ∨ c = '/' → isMember c = false

theorem dense_of {isMember : Char → Bool}
    (h : [' ', '\t', '\r', '\n', '/'].any isMember = false) : Dense isMember := by
  intro c hc
  have hmem : c ∈ [' ', '\t', '\r', '\n', '/'] := by simpa [isSpace, or_assoc] using hc
  exact eq_false_of_ne_true (List.any_eq_false.1 h c hmem)

theorem dense_identStart : Dense isIdentStart := dense_of rfl

theorem dense_identRest : Dense isIdentRest := dense_of rfl

theorem dense_digit : Dense Char.isDigit := dense_of rfl

theorem dense_hexDigit : Dense isHexDigit := dense_of rfl

theorem Dense.solid {isMember : Char → Bool} (h : Dense isMember) {c : Char} {cs : List Char}
    (hc : isMember c = true) : isSolid (c :: cs) = true := by
  have hspace : ¬ (isSpace c = true ∨ c = '/') := fun hgap => by simp [h c hgap] at hc
  simpa [isSolid] using hspace

/-- A run of characters of a class ends with its token. -/
theorem Dense.span {isMember : Char → Bool} (h : Dense isMember) {body : List Char}
    (hbody : ∀ c ∈ body, isMember c = true) {ts : List Token} {rest : List Char}
    (hrest : Follows ts rest) :
    (body ++ rest).takeWhile isMember = body ∧ (body ++ rest).dropWhile isMember = rest := by
  rw [List.takeWhile_append_of_pos hbody, List.dropWhile_append_of_pos hbody]
  cases rest with
  | nil => simp
  | cons c rest => simp [h c (hrest.head rfl)]

/-- Whether a text is a name: a letter or an underscore, then letters, digits and underscores. -/
def isName (s : String) : Bool :=
  match s.toList with
  | [] => false
  | c :: cs => isIdentStart c && cs.all isIdentRest

theorem exists_of_isName {s : String} (h : isName s = true) :
    ∃ c cs, s.toList = c :: cs ∧ isIdentStart c = true ∧ ∀ x ∈ cs, isIdentRest x = true := by
  unfold isName at h
  split at h
  · cases h
  · rename_i c cs hs
    rw [Bool.and_eq_true, List.all_eq_true] at h
    exact ⟨c, cs, hs, h⟩

/-- The token of a name. -/
def Token.name (s : String) (h : isName s = true) : Token where
  chars := s.toList
  solid := by
    obtain ⟨c, cs, hs, hc, -⟩ := exists_of_isName h
    rw [hs]
    exact dense_identStart.solid hc

@[simp] theorem Token.chars_name (s : String) (h : isName s = true) :
    (Token.name s h).chars = s.toList := rfl

theorem reads_ident {s : String} (h : isName s = true) (next : List Token) :
    Reads ident [.name s h] s next := by
  refine .rule ?_
  rintro text ⟨rest, hrest, rfl⟩
  obtain ⟨c, cs, hs, hc, hcs⟩ := exists_of_isName h
  obtain ⟨htake, hdrop⟩ := dense_identRest.span hcs hrest
  refine ⟨rest, takes_ofText ?_, hrest.lays⟩
  show identText? (s.toList ++ rest) = _
  rw [hs, List.cons_append, identText?, if_pos hc, htake, hdrop, ← hs, String.ofList_toList]

theorem refusedAt_ident {ts : List Token}
    (h : ∀ c, firstChar ts = some c → isIdentStart c = false) : RefusedAt ident ts := by
  refine .rule fun cs hcs => refuses_ofText ?_
  cases cs with
  | nil => rfl
  | cons c cs => simp [identText?, h c hcs.head.symm]

/-- Whether a number is written with one or more digits, to base 16 behind a mark. -/
def Numeral.isProper : Numeral → Bool
  | .decimal digits => !digits.isEmpty && digits.all Char.isDigit
  | .hexadecimal mark digits =>
    (mark == 'x' || mark == 'X') && !digits.isEmpty && digits.all isHexDigit

theorem Numeral.digits_of_isProper {digits : List Char}
    (h : (Numeral.decimal digits).isProper = true) :
    digits ≠ [] ∧ ∀ c ∈ digits, c.isDigit = true := by
  simpa [isProper] using h

theorem Numeral.hexDigits_of_isProper {mark : Char} {digits : List Char}
    (h : (Numeral.hexadecimal mark digits).isProper = true) :
    (mark == 'x' || mark == 'X') = true ∧ digits ≠ [] ∧ ∀ c ∈ digits, isHexDigit c = true := by
  simpa [isProper, and_assoc] using h

/-- The token of a number. -/
def Token.number (n : Numeral) (h : n.isProper = true) : Token where
  chars := n.text.toList
  solid := by
    cases n with
    | hexadecimal => simp [Numeral.text, isSolid, isSpace]
    | decimal digits =>
      obtain ⟨hne, hdigits⟩ := Numeral.digits_of_isProper h
      obtain ⟨c, cs, rfl⟩ := List.exists_cons_of_ne_nil hne
      simpa [Numeral.text] using dense_digit.solid (hdigits c List.mem_cons_self)

theorem digitsText?_span {isMember : Char → Bool} {digits rest : List Char} (hne : digits ≠ [])
    (htake : (digits ++ rest).takeWhile isMember = digits)
    (hdrop : (digits ++ rest).dropWhile isMember = rest) :
    digitsText? isMember (digits ++ rest) = some (digits, rest) := by
  unfold digitsText?
  rw [htake, hdrop]
  split
  · exact absurd rfl hne
  · rfl

theorem hexText?_eq_none {cs : List Char}
    (h : ∀ mark rest, cs = '0' :: mark :: rest → (mark == 'x' || mark == 'X') = false) :
    hexText? cs = none := by
  unfold hexText?
  split
  · rename_i mark rest
    simp [h mark rest rfl]
  · rfl

/-- What stands behind a zero is a digit, or can begin a gap, and so no mark. -/
theorem hexText?_digits {digits : List Char} (hdigits : ∀ c ∈ digits, c.isDigit = true)
    {ts : List Token} {rest : List Char} (hrest : Follows ts rest) :
    hexText? (digits ++ rest) = none := by
  have hgap : ∀ c, isSpace c = true ∨ c = '/' → (c == 'x' || c == 'X') = false := by
    intro c hc
    simp only [Bool.or_eq_false_iff, beq_eq_false_iff_ne]
    constructor <;> rintro rfl <;> simp [isSpace] at hc
  have hdigit : ∀ c : Char, c.isDigit = true → (c == 'x' || c == 'X') = false := by
    intro c hc
    simp only [Bool.or_eq_false_iff, beq_eq_false_iff_ne]
    constructor <;> rintro rfl <;> simp [Char.isDigit] at hc
  refine hexText?_eq_none fun mark rest' heq => ?_
  match digits, heq with
  | [], heq =>
    rw [List.nil_append] at heq
    have hzero := hrest.head (by rw [heq]; rfl)
    simp [isSpace] at hzero
  | [_], heq =>
    cases heq
    exact hgap mark (hrest.head rfl)
  | _ :: c :: _, heq =>
    cases heq
    exact hdigit mark (hdigits mark (by simp))

theorem reads_number {n : Numeral} (h : n.isProper = true) (next : List Token) :
    Reads number [.number n h] n next := by
  refine .rule ?_
  rintro text ⟨rest, hrest, rfl⟩
  refine ⟨rest, ?_, hrest.lays⟩
  cases n with
  | hexadecimal mark digits =>
    obtain ⟨hmark, hne, hdigits⟩ := Numeral.hexDigits_of_isProper h
    obtain ⟨htake, hdrop⟩ := dense_hexDigit.span hdigits hrest
    refine Takes.or_left (Takes.rule (takes_ofText ?_))
    simp [Token.number, Numeral.text, hexText?, hmark, digitsText?_span hne htake hdrop]
  | decimal digits =>
    obtain ⟨hne, hdigits⟩ := Numeral.digits_of_isProper h
    obtain ⟨htake, hdrop⟩ := dense_digit.span hdigits hrest
    refine Takes.or_right (Takes.rule (takes_ofText ?_)) (Refuses.rule (refuses_ofText ?_))
    · simp [Token.number, Numeral.text, decText?, digitsText?_span hne htake hdrop]
    · show hexText? ((Numeral.decimal digits).text.toList ++ rest) = none
      rw [Numeral.text, String.toList_ofList]
      exact hexText?_digits hdigits hrest

/-- A text between quotes, and how it is written: a backslash stands in front of quotes and
backslashes, and may stand in front of other characters. An end of line and a tab may also be
written as `\n` and `\t`. -/
inductive Spells : List Char → List Char → Prop where
  | nil : Spells [] []
  | plain {c : Char} {cs inner : List Char} :
    c ≠ '"' → c ≠ '\\' → Spells cs inner → Spells (c :: cs) (c :: inner)
  | escaped {c : Char} {cs inner : List Char} :
    c ≠ 'n' → c ≠ 't' → Spells cs inner → Spells (c :: cs) ('\\' :: c :: inner)
  | newline {cs inner : List Char} :
    Spells cs inner → Spells ('\n' :: cs) ('\\' :: 'n' :: inner)
  | tab {cs inner : List Char} :
    Spells cs inner → Spells ('\t' :: cs) ('\\' :: 't' :: inner)

/-- The token of a text in quotes. -/
def Token.quoted (inner : List Char) : Token where
  chars := '"' :: (inner ++ ['"'])
  solid := rfl

theorem quotedText_of_spells {cs inner : List Char} (h : Spells cs inner) (rest : List Char) :
    quotedText (inner ++ '"' :: rest) = (cs, '"' :: rest) := by
  induction h with
  | nil => simp [quotedText]
  | @plain c cs inner hquote hslash _ ih =>
    rw [List.cons_append, quotedText]
    · simp [hquote, hslash, ih]
    · exact fun _ _ hc => absurd hc hslash
  | escaped hn ht _ ih => simp [quotedText, hn, ht, ih]
  | newline _ ih => simp [quotedText, ih]
  | tab _ ih => simp [quotedText, ih]

theorem reads_string {s : String} {inner : List Char} (h : Spells s.toList inner)
    (next : List Token) : Reads string [.quoted inner] s next := by
  refine .rule ?_
  rintro cs ⟨rest, hrest, rfl⟩
  have hinner : (ofText fun cs => some (quotedText cs)).Takes (inner ++ '"' :: rest) s.toList
      ('"' :: rest) := takes_ofText (by rw [quotedText_of_spells h])
  have hreturn : Takes (pure (String.ofList s.toList)) rest s rest := by
    rw [String.ofList_toList]
    exact takes_pure s rest
  have hcs : (Token.quoted inner).chars ++ rest = "\"".toList ++ (inner ++ '"' :: rest) := by
    simp [Token.quoted]
  rw [hcs]
  exact ⟨rest, .bind (takes_literal _ _) (hinner.bind (.bind (takes_literal "\"" rest) hreturn)),
    hrest.lays⟩

/-- A rule that begins with a word. -/
theorem refusedAt_keyword {α : Type} {r : Rule} {word : String} {f : Unit → Reader α}
    {ts : List Token} (hword : word ≠ "") (h : firstChar ts ≠ word.toList.head?) :
    RefusedAt (rule r (literal word >>= f)) ts :=
  .rule (.bind (refusedAt_literal hword h))

theorem refusedAt_string {ts : List Token} (h : firstChar ts ≠ some '"') : RefusedAt string ts :=
  refusedAt_keyword (by decide) h

/-! ## Parts of a file -/

/-- A description, if there is one, is a text in quotes. -/
inductive DescriptionWritten : Option String → List Token → Prop where
  | none : DescriptionWritten none []
  | some {s : String} {inner : List Char} :
    Spells s.toList inner → DescriptionWritten (some s) [.quoted inner]

theorem reads_description {description : Option String} {ts next : List Token}
    (h : DescriptionWritten description ts) (hnext : firstChar next ≠ some '"') :
    Reads (optional string) ts description next := by
  cases h with
  | none => exact (refusedAt_string hnext).optional
  | some hs => exact (reads_string hs next).optional

/-- The tokens of a header. -/
inductive Header.Written : Header → List Token → Prop where
  | dialect {name : String} (h : isName name = true) :
    Written (.dialect name) [.word "dialect", .name name h, .word ";"]
  | version {n : Numeral} (h : n.isProper = true) :
    Written (.version n) [.word "version", .number n h, .word ";"]
  | setting {name : String} (h : isName name = true) :
    Written (.setting name) [.word "option", .name name h, .word ";"]
  | inclusion {name : String} {inner : List Char} : Spells name.toList inner →
    Written (.inclusion name) [.word "include", .quoted inner, .word ";"]

theorem reads_header {h : Header} {ts : List Token} (hw : h.Written ts) (next : List Token) :
    Reads header ts h next := by
  cases hw with
  | dialect hname =>
    exact .or_left (.rule (.cons reads_word (.cons (reads_ident hname _) (.map reads_word))))
  | version hn =>
    refine .or_right (.or_left ?_) (refusedAt_keyword (by decide) (by simp))
    exact .rule (.cons reads_word (.cons (reads_number hn _) (.map reads_word)))
  | setting hname =>
    refine .or_right (.or_right (.or_left ?_) ?_) ?_
    · exact .rule (.cons reads_word (.cons (reads_ident hname _) (.map reads_word)))
    · exact refusedAt_keyword (by decide) (by simp)
    · exact refusedAt_keyword (by decide) (by simp)
  | inclusion hs =>
    refine .or_right (.or_right (.or_right ?_ ?_) ?_) ?_
    · exact .rule (.cons reads_word (.cons (reads_string hs _) (.map reads_word)))
    · exact refusedAt_keyword (by decide) (by simp)
    · exact refusedAt_keyword (by decide) (by simp)
    · exact refusedAt_keyword (by decide) (by simp)

theorem refusedAt_header {ts : List Token} (h : ∀ c ∈ ['d', 'v', 'o', 'i'], firstChar ts ≠ some c) :
    RefusedAt header ts := by
  refine .or ?_ (.or ?_ (.or ?_ ?_)) <;> refine refusedAt_keyword (by decide) ?_
  · exact h 'd' (by decide)
  · exact h 'v' (by decide)
  · exact h 'o' (by decide)
  · exact h 'i' (by decide)

/-- The tokens of an entry of an enumeration. -/
inductive EntryDecl.Written : EntryDecl → List Token → Prop where
  | mk {name : String} {value : Numeral} {description : Option String} {ds : List Token}
    (hname : isName name = true) (hvalue : value.isProper = true) :
    DescriptionWritten description ds →
    Written ⟨name, value, description⟩
      (.name name hname :: .word "=" :: .number value hvalue :: (ds ++ [.word ";"]))

theorem reads_enumEntry {e : EntryDecl} {ts : List Token} (hw : e.Written ts) (next : List Token) :
    Reads enumEntry ts e next := by
  obtain ⟨hname, hvalue, hd⟩ := hw
  exact .rule (.cons (reads_ident hname _) (.cons reads_word (.cons (reads_number hvalue _)
    (.seq (reads_description hd (by simp)) (.map reads_word)))))

/-- The tokens of an enumeration, with those of its entries in braces. -/
inductive EnumDecl.Written : EnumDecl → List Token → Prop where
  | mk {name : String} {description : Option String} {entries : List EntryDecl}
    {ds es : List Token} (hname : isName name = true) : DescriptionWritten description ds →
    Series EntryDecl.Written entries es →
    Written ⟨name, description, entries⟩
      (.word "enum" :: .name name hname :: (ds ++ (.word "\x7b" :: (es ++ [.word "\x7d"]))))

/-- No name begins with a brace. -/
theorem refusedAt_brace (next : List Token) : RefusedAt ident (.word "\x7d" :: next) := by
  refine refusedAt_ident fun c hc => ?_
  cases hc
  rfl

theorem reads_enumSection {e : EnumDecl} {ts : List Token} (hw : e.Written ts)
    (next : List Token) : Reads enumSection ts e next := by
  obtain ⟨hname, hd, hes⟩ := hw
  have hentries := hes.reads_many (fun _ _ next h => reads_enumEntry h next)
    (.rule (.bind (refusedAt_brace next)))
  exact .rule (.cons reads_word (.cons (reads_ident hname _) (.seq (reads_description hd (by simp))
    (.cons reads_word (.seq hentries (.map reads_word))))))

/-- An array length, if there is one, stands in brackets. -/
inductive LengthWritten : Option Numeral → List Token → Prop where
  | none : LengthWritten none []
  | some {n : Numeral} (h : n.isProper = true) :
    LengthWritten (some n) [.word "[", .number n h, .word "]"]

theorem reads_length {length : Option Numeral} {ts next : List Token}
    (h : LengthWritten length ts) (hnext : firstChar next ≠ some '[') :
    Reads (optional arraySuffix) ts length next := by
  cases h with
  | none => exact (refusedAt_keyword (by decide) hnext).optional
  | some hn =>
    exact .optional (.rule (.cons reads_word (.cons (reads_number hn _) (.map reads_word))))

/-- The tokens of a field. -/
inductive FieldDecl.Written : FieldDecl → List Token → Prop where
  | mk {name tag : String} {arrayLength : Option Numeral} {description : Option String}
    {ls ds : List Token} (hname : isName name = true) (htag : isName tag = true) :
    LengthWritten arrayLength ls → DescriptionWritten description ds →
    Written ⟨name, tag, arrayLength, description⟩
      (.name name hname :: .word ":" :: .name tag htag :: (ls ++ (ds ++ [.word ";"])))

theorem reads_fieldDecl {f : FieldDecl} {ts : List Token} (hw : f.Written ts) (next : List Token) :
    Reads fieldDecl ts f next := by
  obtain @⟨_, _, _, _, ls, ds, hname, htag, hl, hd⟩ := hw
  have hnext : firstChar (ds ++ [.word ";"] ++ next) ≠ some '[' := by
    cases hd <;> simp [Token.quoted]
  exact .rule (.cons (reads_ident hname _) (.cons reads_word (.cons (reads_ident htag _)
    (.seq (reads_length hl hnext) (.seq (reads_description hd (by simp)) (.map reads_word))))))

/-- The tokens of what stands in a message: the mark of the extensions, or a field. -/
inductive MessageItem.Written : MessageItem → List Token → Prop where
  | extensions : Written .extensions [.word "extensions", .word ";"]
  | field {f : FieldDecl} {ts : List Token} : f.Written ts → Written (.field f) ts

theorem stripFront?_span {word : List Char} (body : List Char)
    (hword : ∀ c ∈ word, isIdentRest c = true) {ts : List Token} {rest : List Char}
    (hrest : Follows ts rest) :
    (∃ suffix, body = word ++ suffix) ∨ stripFront? word (body ++ rest) = none := by
  induction word generalizing body with
  | nil => exact .inl ⟨body, rfl⟩
  | cons w word ih =>
    have hw := hword w List.mem_cons_self
    cases body with
    | nil =>
      right
      cases rest with
      | nil => rfl
      | cons c rest =>
        have hne : w ≠ c := by
          rintro rfl
          simp [dense_identRest w (hrest.head rfl)] at hw
        simp [stripFront?, hne]
    | cons c body =>
      by_cases hc : w = c
      · subst hc
        rcases ih body fun x hx => hword x (List.mem_cons_of_mem w hx) with ⟨suffix, h⟩ | h
        · exact .inl ⟨suffix, by rw [h, List.cons_append]⟩
        · exact .inr (by simpa [stripFront?] using h)
      · exact .inr (by simp [stripFront?, hc])

/-- A field may have a name that begins like the mark of extensions, or is the same. -/
theorem refusedAt_extensionsMarker {name : String} (hname : isName name = true)
    (next : List Token) : RefusedAt extensionsMarker (.name name hname :: .word ":" :: next) := by
  refine .rule ?_
  rintro cs ⟨rest, hrest, rfl⟩
  rw [Token.chars_name]
  obtain ⟨c, tail, hchars, -, htail⟩ := exists_of_isName hname
  have hword : ∀ x ∈ "extensions".toList, isIdentRest x = true :=
    List.all_eq_true.1 (by decide)
  rcases stripFront?_span name.toList hword hrest with ⟨suffix, hsuffix⟩ | hnone
  · -- The reader gets past the word, but then it comes to the colon or to the rest of the name.
    have htakes : (literal "extensions").Takes (name.toList ++ rest) () (suffix ++ rest) := by
      rw [hsuffix, List.append_assoc]
      exact takes_literal "extensions" (suffix ++ rest)
    refine htakes.bind_refuses ((takes_gap _).bind_refuses ?_)
    cases suffix with
    | nil => exact refusedAt_literal (by decide) (by simp) _ hrest.lays.skip
    | cons x suffix =>
      have hx : isIdentRest x = true := by
        rw [hchars] at hsuffix
        obtain ⟨-, rfl⟩ := List.cons.inj hsuffix
        exact htail x (by simp)
      rw [List.cons_append, skipGap_solid (dense_identRest.solid hx)]
      refine refuses_literal (by decide) fun hhead => ?_
      cases hhead
      cases hx
  · exact Refuses.bind (refuses_ofText (by rw [hnone]; rfl))

theorem reads_messageItem {i : MessageItem} {ts : List Token} (hw : i.Written ts)
    (next : List Token) : Reads messageItem ts i next := by
  cases hw with
  | extensions => exact .or_left (.map (.rule (.cons reads_word reads_word)))
  | field hf =>
    refine .or_right (.map (reads_fieldDecl hf next)) (.bind ?_)
    obtain ⟨hname, -, -, -⟩ := hf
    exact refusedAt_extensionsMarker hname _

/-- The tokens of a message, with those of its fields in braces. -/
inductive MessageDecl.Written : MessageDecl → List Token → Prop where
  | mk {name : String} {id : Numeral} {description : Option String} {items : List MessageItem}
    {ds is : List Token} (hname : isName name = true) (hid : id.isProper = true) :
    DescriptionWritten description ds → Series MessageItem.Written items is →
    Written ⟨name, id, description, items⟩
      (.word "message" :: .name name hname :: .word "=" :: .number id hid ::
        (ds ++ (.word "\x7b" :: (is ++ [.word "\x7d"]))))

theorem reads_messageSection {m : MessageDecl} {ts : List Token} (hw : m.Written ts)
    (next : List Token) : Reads messageSection ts m next := by
  obtain ⟨hname, hid, hd, his⟩ := hw
  have hstop : RefusedAt messageItem (.word "\x7d" :: next) :=
    .or (.bind (refusedAt_keyword (by decide) (by simp)))
      (.bind (.rule (.bind (refusedAt_brace next))))
  have hitems := his.reads_many (fun _ _ next h => reads_messageItem h next) hstop
  exact .rule (.cons reads_word (.cons (reads_ident hname _) (.cons reads_word
    (.cons (reads_number hid _) (.seq (reads_description hd (by simp))
      (.cons reads_word (.seq hitems (.map reads_word))))))))

/-- The tokens of an enumeration or a message. -/
inductive Item.Written : Item → List Token → Prop where
  | enumeration {e : EnumDecl} {ts : List Token} : e.Written ts → Written (.enumeration e) ts
  | message {m : MessageDecl} {ts : List Token} : m.Written ts → Written (.message m) ts

theorem reads_item {i : Item} {ts : List Token} (hw : i.Written ts) (next : List Token) :
    Reads item ts i next := by
  cases hw with
  | enumeration he => exact .or_left (.map (reads_enumSection he next))
  | message hm =>
    refine .or_right (.map (reads_messageSection hm next)) (.bind ?_)
    obtain ⟨hname, -, -, -⟩ := hm
    exact refusedAt_keyword (by decide) (by simp)

/-! ## Files -/

/-- The tokens of a file: those of its headers, then those of its items. -/
inductive File.Written : File → List Token → Prop where
  | mk {headers : List Header} {items : List Item} {hs is : List Token} :
    Series Header.Written headers hs → Series Item.Written items is →
    Written ⟨headers, items⟩ (hs ++ is)

/-- No header begins like an item. -/
theorem refusedAt_header_of_items {items : List Item} {ts : List Token}
    (h : Series Item.Written items ts) : RefusedAt header ts := by
  refine refusedAt_header ?_
  cases h with
  | nil => simp
  | cons hi _ =>
    cases hi with
    | enumeration he =>
      obtain ⟨-, -, -⟩ := he
      simp
    | message hm =>
      obtain ⟨-, -, -, -⟩ := hm
      simp

theorem takes_dialectFile {f : File} {ts : List Token} (hw : f.Written ts) {cs : List Char}
    (hcs : Lays ts cs) : dialectFile.Takes cs f [] := by
  obtain @⟨headers, items, hs, is, hheaders, hitems⟩ := hw
  have hend : RefusedAt item [] :=
    .or (.bind (refusedAt_keyword (by decide) (by simp)))
      (.bind (refusedAt_keyword (by decide) (by simp)))
  obtain ⟨rest, htakes, hrest⟩ :=
    hheaders.reads_many (fun _ _ next h => reads_header h next) (refusedAt_header_of_items hitems) _
      hcs.skip
  rw [← List.append_nil is] at hrest
  obtain ⟨rest', htakes', hrest'⟩ :=
    hitems.reads_many (fun _ _ next h => reads_item h next) hend _ hrest.skip
  have hnil : skipGap rest' = [] := hrest'.skip
  refine Takes.rule ((takes_gap cs).bind (htakes.bind ((takes_gap rest).bind (htakes'.bind
    ((takes_gap rest').bind ?_)))))
  rw [hnil]
  exact Takes.bind (Takes.rule (takes_ofText rfl)) (takes_pure _ _)

/-- **A file is read as it was written**, whatever stands between its tokens. -/
theorem readFile_of_written {f : File} {ts : List Token} (hw : f.Written ts) {cs : List Char}
    (hcs : Lays ts cs) : readFile cs = .ok f := by
  obtain ⟨notes, h⟩ := (takes_dialectFile hw hcs).eq { left := cs.length }
  rw [readFile, h]

end Telemetry.Source
