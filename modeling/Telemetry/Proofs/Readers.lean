import Mathlib.Data.List.Infix
import Telemetry.Source.Reader

/-!
# Reading laid out tokens

What a reader does with a text in which tokens stand one after the other, with blanks and comments
between them. How much stands between two tokens does not matter, as long as there is something.

* `Reader.Takes`, `Reader.Refuses`: what readers do with a text, whatever they have noted.
* `Gap`: blanks and comments.
* `Token`, `Lays`: texts made of tokens with gaps between them.
* `Reads`, `RefusedAt`: readers of tokens, with a rule for each way of building them.
-/

namespace Telemetry.Source

/-! ## Readers on texts -/

namespace Reader

variable {α β : Type} {p q : Reader α} {f : α → Reader β} {cs rest rest' : List Char}
variable {a : α} {b : β}

/-- The reader takes a value from the front of a text and leaves the rest. -/
def Takes (p : Reader α) (cs : List Char) (a : α) (rest : List Char) : Prop :=
  ∀ notes, (p cs notes).1 = some (a, rest)

/-- The reader refuses a text. -/
def Refuses (p : Reader α) (cs : List Char) : Prop := ∀ notes, (p cs notes).1 = none

theorem takes_pure (a : α) (cs : List Char) : Takes (pure a) cs a cs := fun _ => rfl

theorem takes_ofText {g : List Char → Option (α × List Char)} (h : g cs = some (a, rest)) :
    (ofText g).Takes cs a rest := fun _ => h

theorem refuses_ofText {g : List Char → Option (α × List Char)} (h : g cs = none) :
    (ofText g).Refuses cs := fun _ => h

theorem Takes.eq (h : p.Takes cs a rest) (notes : Notes) :
    ∃ notes', p cs notes = (some (a, rest), notes') :=
  ⟨(p cs notes).2, Prod.ext (h notes) rfl⟩

theorem Refuses.eq (h : p.Refuses cs) (notes : Notes) : ∃ notes', p cs notes = (none, notes') :=
  ⟨(p cs notes).2, Prod.ext (h notes) rfl⟩

theorem Takes.bind (hp : p.Takes cs a rest) (hf : (f a).Takes rest b rest') :
    (p >>= f).Takes cs b rest' := by
  intro notes
  obtain ⟨notes', h⟩ := hp.eq notes
  simpa [Bind.bind, andThen, h] using hf notes'

theorem Takes.bind_refuses (hp : p.Takes cs a rest) (hf : (f a).Refuses rest) :
    (p >>= f).Refuses cs := by
  intro notes
  obtain ⟨notes', h⟩ := hp.eq notes
  simpa [Bind.bind, andThen, h] using hf notes'

theorem Refuses.bind (hp : p.Refuses cs) : (p >>= f).Refuses cs := by
  intro notes
  obtain ⟨notes', h⟩ := hp.eq notes
  simp [Bind.bind, andThen, h]

theorem Takes.rule {r : Rule} (hp : p.Takes cs a rest) : (rule r p).Takes cs a rest := by
  intro notes
  obtain ⟨notes', h⟩ := hp.eq notes
  simp [Reader.rule, h]

theorem Refuses.rule {r : Rule} (hp : p.Refuses cs) : (rule r p).Refuses cs := by
  intro notes
  obtain ⟨notes', h⟩ := hp.eq notes
  simp [Reader.rule, h]

theorem Takes.or_left (hp : p.Takes cs a rest) : (orElse p q).Takes cs a rest := by
  intro notes
  obtain ⟨notes', h⟩ := hp.eq notes
  simp [orElse, h]

theorem Takes.or_right (hq : q.Takes cs a rest) (hp : p.Refuses cs) :
    (orElse p q).Takes cs a rest := by
  intro notes
  obtain ⟨notes', h⟩ := hp.eq notes
  simpa [orElse, h] using hq notes'

theorem Refuses.or (hp : p.Refuses cs) (hq : q.Refuses cs) : (orElse p q).Refuses cs := by
  intro notes
  obtain ⟨notes', h⟩ := hp.eq notes
  simpa [orElse, h] using hq notes'

theorem Takes.optional (hp : p.Takes cs a rest) : (optional p).Takes cs (some a) rest := by
  intro notes
  obtain ⟨notes', h⟩ := hp.eq notes
  simp [Reader.optional, h]

theorem Refuses.optional (hp : p.Refuses cs) : (optional p).Takes cs none cs := by
  intro notes
  obtain ⟨notes', h⟩ := hp.eq notes
  simp [Reader.optional, h]

theorem stripFront?_append (word cs : List Char) : stripFront? word (word ++ cs) = some cs := by
  induction word with
  | nil => cases cs <;> rfl
  | cons w word ih => simpa [stripFront?] using ih

theorem takes_literal (word : String) (rest : List Char) :
    (literal word).Takes (word.toList ++ rest) () rest :=
  takes_ofText (by rw [stripFront?_append]; rfl)

theorem refuses_literal {word : String} (hword : word ≠ "") (hcs : cs.head? ≠ word.toList.head?) :
    (literal word).Refuses cs := by
  refine refuses_ofText ?_
  obtain ⟨w, tail, hlist⟩ := List.exists_cons_of_ne_nil (mt String.toList_eq_nil_iff.1 hword)
  rw [hlist] at hcs ⊢
  cases cs with
  | nil => rfl
  | cons c cs =>
    have hne : w ≠ c := fun h => hcs (congrArg some h.symm)
    simp [stripFront?, hne]

theorem takes_more_cons {fuel : Nat} {as : List α} (hp : (gap >>= fun _ => p).Takes cs a rest)
    (has : (more p fuel).Takes rest as rest') : (more p (fuel + 1)).Takes cs (a :: as) rest' := by
  intro notes
  obtain ⟨notes', h⟩ := hp.eq notes
  simp only [Bind.bind] at h
  simpa [more, h, Bind.bind] using has.bind (takes_pure (a :: as) rest') notes'

theorem takes_more_nil {fuel : Nat} (hp : (gap >>= fun _ => p).Refuses cs) :
    (more p fuel).Takes cs [] cs := by
  intro notes
  obtain ⟨notes', h⟩ := hp.eq notes
  simp only [Bind.bind] at h
  cases fuel with
  | zero => rfl
  | succ fuel => simp [more, h]

theorem takes_many_cons {as : List α} (hp : p.Takes cs a rest)
    (has : (more p (rest.length + 1)).Takes rest as rest') :
    (many p).Takes cs (a :: as) rest' := by
  intro notes
  obtain ⟨notes', h⟩ := hp.eq notes
  simpa [many, h, Bind.bind] using has.bind (takes_pure (a :: as) rest') notes'

theorem takes_many_nil (hp : p.Refuses cs) : (many p).Takes cs [] cs := by
  intro notes
  obtain ⟨notes', h⟩ := hp.eq notes
  simp [many, h]

theorem takes_gap (cs : List Char) : gap.Takes cs () (skipGap cs) := takes_ofText rfl

end Reader

/-! ## Gaps -/

open Reader

/-- Blanks and comments. A comment that begins with two slashes takes the end of its line with it;
one in a block ends where it can first end. -/
inductive Gap : List Char → Prop where
  | nil : Gap []
  | blank {c : Char} {g : List Char} : isSpace c = true → Gap g → Gap (c :: g)
  | line {body g : List Char} : '\n' ∉ body → Gap g → Gap ('/' :: '/' :: (body ++ '\n' :: g))
  | block {body g : List Char} : ¬ ['*', '/'] <:+: body → Gap g →
    Gap ('/' :: '*' :: (body ++ '*' :: '/' :: g))

/-- What may stand at the end of a file: a gap, of which the last line need not end. -/
inductive Tail : List Char → Prop where
  | gap {g : List Char} : Gap g → Tail g
  | line {g body : List Char} : Gap g → '\n' ∉ body → Tail (g ++ '/' :: '/' :: body)

theorem closeComment?_append {body : List Char} (h : ¬ ['*', '/'] <:+: body) (rest : List Char) :
    closeComment? (body ++ '*' :: '/' :: rest) = some rest := by
  induction body with
  | nil => rfl
  | cons c body ih =>
    have hbody : ¬ ['*', '/'] <:+: body :=
      fun hin => h (hin.trans (List.suffix_cons c body).isInfix)
    rw [List.cons_append, closeComment?]
    · exact ih hbody
    · rintro rest' rfl hrest
      cases body with
      | nil => cases hrest
      | cons c' body =>
        cases hrest
        exact h ⟨[], body, rfl⟩

theorem dropWhile_line {body : List Char} (h : '\n' ∉ body) (rest : List Char) :
    (body ++ rest).dropWhile (· ≠ '\n') = rest.dropWhile (· ≠ '\n') :=
  List.dropWhile_append_of_pos (by simpa using fun c hc (hn : c = '\n') => h (hn ▸ hc))

theorem skipGap_blank {c : Char} (h : isSpace c = true) (rest : List Char) :
    skipGap (c :: rest) = skipGap rest := by
  rw [skipGap, if_pos h]

theorem skipGap_comment {c : Char} {cs rest : List Char} (hc : isSpace c = false)
    (h : stripComment? (c :: cs) = some rest) : skipGap (c :: cs) = skipGap rest := by
  rw [skipGap, if_neg (by simp [hc])]
  split
  · rename_i h'
    cases h.symm.trans h'
    rfl
  · rename_i h'
    cases h.symm.trans h'

/-- Gaps are skipped. -/
theorem Gap.skip {g : List Char} (hg : Gap g) (rest : List Char) :
    skipGap (g ++ rest) = skipGap rest := by
  induction hg with
  | nil => rfl
  | blank hc _ ih => rw [List.cons_append, skipGap_blank hc, ih]
  | @line body g hbody _ ih =>
    have hstrip : stripComment? ('/' :: '/' :: (body ++ '\n' :: (g ++ rest))) =
        some ('\n' :: (g ++ rest)) := by
      simpa [stripComment?] using dropWhile_line hbody ('\n' :: (g ++ rest))
    simpa [skipGap_blank (c := '\n') rfl, ih] using skipGap_comment rfl hstrip
  | @block body g hbody _ ih =>
    have hstrip : stripComment? ('/' :: '*' :: (body ++ '*' :: '/' :: (g ++ rest))) =
        some (g ++ rest) := by
      rw [stripComment?, closeComment?_append hbody]
    simpa [ih] using skipGap_comment rfl hstrip

theorem Tail.skip {g : List Char} (hg : Tail g) : skipGap g = [] := by
  have hnil : skipGap [] = [] := by simp [skipGap]
  cases hg with
  | gap hg => simpa [hnil] using hg.skip []
  | @line g body hg hbody =>
    have hstrip : stripComment? ('/' :: '/' :: body) = some [] := by
      simpa [stripComment?] using dropWhile_line hbody []
    rw [hg.skip, skipGap_comment rfl hstrip, hnil]

/-! ## Tokens -/

/-- Whether a text begins with a character that ends a gap. -/
def isSolid : List Char → Bool
  | [] => false
  | c :: _ => !isSpace c && c ≠ '/'

/-- A token: characters that are read together, of which the first ends a gap. -/
structure Token where
  chars : List Char
  solid : isSolid chars = true

/-- A token that is always written in the same way. -/
def Token.word (text : String) (solid : isSolid text.toList = true := by decide) : Token :=
  ⟨text.toList, solid⟩

@[simp] theorem Token.chars_word (text : String) (solid : isSolid text.toList = true) :
    (Token.word text solid).chars = text.toList := rfl

/-- A text that stands right behind a token: it goes on with given tokens, with a gap in front of
each. -/
def Follows : List Token → List Char → Prop
  | [], cs => Tail cs
  | t :: ts, cs => ∃ g rest, Gap g ∧ g ≠ [] ∧ Follows ts rest ∧ cs = g ++ (t.chars ++ rest)

/-- A text that begins with the first of given tokens. Without tokens it is empty. -/
def Begins : List Token → List Char → Prop
  | [], cs => cs = []
  | t :: ts, cs => ∃ rest, Follows ts rest ∧ cs = t.chars ++ rest

/-- A text of given tokens. There is something between any two of them, and there may be something
in front of the first and behind the last. -/
def Lays : List Token → List Char → Prop
  | [], cs => Tail cs
  | t :: ts, cs => ∃ g rest, Gap g ∧ Follows ts rest ∧ cs = g ++ (t.chars ++ rest)

theorem Follows.lays {ts : List Token} {cs : List Char} (h : Follows ts cs) : Lays ts cs := by
  cases ts with
  | nil => exact h
  | cons t ts =>
    obtain ⟨g, rest, hg, -, hrest, rfl⟩ := h
    exact ⟨g, rest, hg, hrest, rfl⟩

theorem Begins.lays {ts : List Token} {cs : List Char} (h : Begins ts cs) : Lays ts cs := by
  cases ts with
  | nil => exact h ▸ .gap .nil
  | cons t ts =>
    obtain ⟨rest, hrest, rfl⟩ := h
    exact ⟨[], rest, .nil, hrest, rfl⟩

/-- Tokens can be written with the same gap behind each. -/
theorem lays_flatMap {g : List Char} (hg : Gap g) (hne : g ≠ []) (ts : List Token) :
    Lays ts (ts.flatMap fun t => t.chars ++ g) := by
  have hfollows : ∀ ts : List Token, Follows ts (g ++ ts.flatMap fun t => t.chars ++ g) := by
    intro ts
    induction ts with
    | nil =>
      rw [List.flatMap_nil, List.append_nil]
      exact .gap hg
    | cons t ts ih => exact ⟨g, _, hg, hne, ih, by simp⟩
  cases ts with
  | nil => exact .gap .nil
  | cons t ts => exact ⟨[], _, .nil, hfollows ts, by simp⟩

theorem skipGap_solid {cs : List Char} (h : isSolid cs = true) : skipGap cs = cs := by
  cases cs with
  | nil => cases h
  | cons c cs =>
    simp only [isSolid, Bool.and_eq_true, Bool.not_eq_true', decide_eq_true_eq] at h
    rw [skipGap, if_neg (by simp [h.1])]
    split
    · rename_i h'
      unfold stripComment? at h'
      split at h'
      · rename_i heq
        cases heq
        exact absurd rfl h.2
      · rename_i heq
        cases heq
        exact absurd rfl h.2
      · cases h'
    · rfl

theorem Token.exists_cons (t : Token) : ∃ c cs, t.chars = c :: cs := by
  refine List.exists_cons_of_ne_nil fun hnil => ?_
  have hsolid := t.solid
  rw [hnil] at hsolid
  cases hsolid

theorem Token.solid_append (t : Token) (rest : List Char) : isSolid (t.chars ++ rest) = true := by
  have hsolid := t.solid
  obtain ⟨c, cs, hchars⟩ := t.exists_cons
  rw [hchars] at hsolid ⊢
  exact hsolid

/-- Behind a gap a text begins with its first token. -/
theorem Lays.skip {ts : List Token} {cs : List Char} (h : Lays ts cs) : Begins ts (skipGap cs) := by
  cases ts with
  | nil => exact Tail.skip h
  | cons t ts =>
    obtain ⟨g, rest, hg, hrest, rfl⟩ := h
    exact ⟨rest, hrest, by rw [hg.skip, skipGap_solid (t.solid_append rest)]⟩

/-- A token is followed by the end of the text, a blank or a comment. -/
theorem Follows.head {ts : List Token} {cs : List Char} (h : Follows ts cs) {c : Char}
    (hc : cs.head? = some c) : isSpace c = true ∨ c = '/' := by
  have hgap : ∀ {g rest : List Char}, Gap g → (g ++ rest).head? = some c → g = [] ∨
      (isSpace c = true ∨ c = '/') := by
    intro g rest hg hhead
    cases hg with
    | nil => exact .inl rfl
    | blank hblank _ =>
      cases hhead
      exact .inr (.inl hblank)
    | line =>
      cases hhead
      exact .inr (.inr rfl)
    | block =>
      cases hhead
      exact .inr (.inr rfl)
  cases ts with
  | nil =>
    cases h with
    | gap hg =>
      rcases @hgap _ [] hg (by simpa using hc) with rfl | h
      · cases hc
      · exact h
    | line hg hbody =>
      rcases hgap hg hc with rfl | h
      · cases hc
        exact .inr rfl
      · exact h
  | cons t ts =>
    obtain ⟨g, rest, hg, hne, -, rfl⟩ := h
    exact (hgap hg hc).resolve_left hne

/-! ## Readers of tokens -/

section Reads

variable {α β : Type} {p q : Reader α} {f : α → Reader β} {ts us next : List Token} {a : α} {b : β}

/-- The reader takes a value from a text that begins with given tokens, and leaves the tokens that
come next. -/
def Reads (p : Reader α) (ts : List Token) (a : α) (next : List Token) : Prop :=
  ∀ cs, Begins (ts ++ next) cs → ∃ rest, p.Takes cs a rest ∧ Lays next rest

/-- The reader refuses texts that begin with given tokens. -/
def RefusedAt (p : Reader α) (ts : List Token) : Prop := ∀ cs, Begins ts cs → p.Refuses cs

/-- One reader after the other, with a gap between them. -/
theorem Reads.seq (hp : Reads p ts a (us ++ next)) (hf : Reads (f a) us b next) :
    Reads (p >>= fun a => gap >>= fun _ => f a) (ts ++ us) b next := by
  intro cs h
  rw [List.append_assoc] at h
  obtain ⟨rest, htakes, hlays⟩ := hp cs h
  obtain ⟨rest', htakes', hlays'⟩ := hf _ hlays.skip
  exact ⟨rest', htakes.bind ((takes_gap rest).bind htakes'), hlays'⟩

theorem Reads.cons {t : Token} (hp : Reads p [t] a (us ++ next)) (hf : Reads (f a) us b next) :
    Reads (p >>= fun a => gap >>= fun _ => f a) (t :: us) b next :=
  hp.seq hf

theorem Reads.map {g : α → β} (hp : Reads p ts a next) :
    Reads (p >>= fun a => pure (g a)) ts (g a) next := by
  intro cs h
  obtain ⟨rest, htakes, hlays⟩ := hp cs h
  exact ⟨rest, htakes.bind (takes_pure (g a) rest), hlays⟩

theorem Reads.rule {r : Rule} (hp : Reads p ts a next) : Reads (rule r p) ts a next := by
  intro cs h
  obtain ⟨rest, htakes, hlays⟩ := hp cs h
  exact ⟨rest, htakes.rule, hlays⟩

theorem Reads.or_left (hp : Reads p ts a next) : Reads (orElse p q) ts a next := by
  intro cs h
  obtain ⟨rest, htakes, hlays⟩ := hp cs h
  exact ⟨rest, htakes.or_left, hlays⟩

theorem Reads.or_right (hq : Reads q ts a next) (hp : RefusedAt p (ts ++ next)) :
    Reads (orElse p q) ts a next := by
  intro cs h
  obtain ⟨rest, htakes, hlays⟩ := hq cs h
  exact ⟨rest, htakes.or_right (hp cs h), hlays⟩

theorem Reads.optional (hp : Reads p ts a next) : Reads (optional p) ts (some a) next := by
  intro cs h
  obtain ⟨rest, htakes, hlays⟩ := hp cs h
  exact ⟨rest, htakes.optional, hlays⟩

theorem RefusedAt.optional (hp : RefusedAt p next) : Reads (optional p) [] none next :=
  fun cs h => ⟨cs, (hp cs h).optional, h.lays⟩

theorem reads_word {text : String} {solid : isSolid text.toList = true} {next : List Token} :
    Reads (literal text) [.word text solid] () next := by
  rintro cs ⟨rest, hrest, rfl⟩
  exact ⟨rest, takes_literal text rest, hrest.lays⟩

theorem RefusedAt.bind (hp : RefusedAt p ts) : RefusedAt (p >>= f) ts :=
  fun cs h => (hp cs h).bind

theorem RefusedAt.rule {r : Rule} (hp : RefusedAt p ts) : RefusedAt (rule r p) ts :=
  fun cs h => (hp cs h).rule

theorem RefusedAt.or (hp : RefusedAt p ts) (hq : RefusedAt q ts) : RefusedAt (orElse p q) ts :=
  fun cs h => (hp cs h).or (hq cs h)

/-- The first character of tokens. -/
def firstChar (ts : List Token) : Option Char := ts.head?.bind (·.chars.head?)

@[simp] theorem firstChar_nil : firstChar [] = none := rfl

@[simp] theorem firstChar_cons (t : Token) (ts : List Token) :
    firstChar (t :: ts) = t.chars.head? := rfl

theorem Begins.head {cs : List Char} (h : Begins ts cs) : cs.head? = firstChar ts := by
  cases ts with
  | nil => rw [h]; rfl
  | cons t ts =>
    obtain ⟨rest, -, rfl⟩ := h
    obtain ⟨c, cs, hchars⟩ := t.exists_cons
    simp [hchars]

theorem refusedAt_literal {word : String} (hword : word ≠ "")
    (h : firstChar ts ≠ word.toList.head?) : RefusedAt (literal word) ts :=
  fun _ hcs => refuses_literal hword (hcs.head ▸ h)

/-! ## Series -/

/-- The tokens of values, one after the other. Each value has at least one. -/
inductive Series (W : α → List Token → Prop) : List α → List Token → Prop where
  | nil : Series W [] []
  | cons {x : α} {xs : List α} {t : Token} {ts us : List Token} :
    W x (t :: ts) → Series W xs us → Series W (x :: xs) (t :: (ts ++ us))

theorem Follows.length_le {cs : List Char} (h : Follows ts cs) : ts.length ≤ cs.length := by
  induction ts generalizing cs with
  | nil => exact Nat.zero_le _
  | cons t ts ih =>
    obtain ⟨g, rest, -, hne, hrest, rfl⟩ := h
    have hlen := ih hrest
    have hpos := List.length_pos_iff.2 hne
    simp only [List.length_cons, List.length_append]
    omega

theorem Lays.length_le {cs : List Char} (h : Lays ts cs) : ts.length ≤ cs.length := by
  cases ts with
  | nil => exact Nat.zero_le _
  | cons t ts =>
    obtain ⟨g, rest, -, hrest, rfl⟩ := h
    have hlen := hrest.length_le
    obtain ⟨c, cs, hchars⟩ := t.exists_cons
    simp only [List.length_cons, List.length_append, hchars]
    omega

variable {W : α → List Token → Prop} {xs : List α}

theorem Series.length_le (h : Series W xs ts) : xs.length ≤ ts.length := by
  induction h with
  | nil => exact Nat.le_refl _
  | cons _ _ ih =>
    simp only [List.length_cons, List.length_append]
    omega

theorem Series.takes_more (hW : ∀ x ts next, W x ts → Reads p ts x next) (h : Series W xs ts)
    (hstop : RefusedAt p next) {fuel : Nat} (hfuel : xs.length ≤ fuel) {cs : List Char}
    (hcs : Lays (ts ++ next) cs) : ∃ rest, (more p fuel).Takes cs xs rest ∧ Lays next rest := by
  induction h generalizing fuel cs with
  | nil =>
    exact ⟨cs, takes_more_nil ((takes_gap cs).bind_refuses (hstop _ hcs.skip)), hcs⟩
  | @cons x xs t ts us hx _ ih =>
    obtain ⟨fuel, rfl⟩ : ∃ n, fuel = n + 1 := ⟨fuel - 1, by simp at hfuel; omega⟩
    rw [List.cons_append, List.append_assoc] at hcs
    obtain ⟨rest, htakes, hrest⟩ := hW x (t :: ts) (us ++ next) hx _ hcs.skip
    obtain ⟨rest', htakes', hrest'⟩ := ih (by simpa using hfuel) hrest
    exact ⟨rest', takes_more_cons ((takes_gap cs).bind htakes) htakes', hrest'⟩

/-- All values of a series are read, up to where the reader refuses. -/
theorem Series.reads_many (hW : ∀ x ts next, W x ts → Reads p ts x next) (h : Series W xs ts)
    (hstop : RefusedAt p next) : Reads (many p) ts xs next := by
  intro cs hcs
  cases h with
  | nil => exact ⟨cs, takes_many_nil (hstop cs hcs), hcs.lays⟩
  | @cons x xs t ts us hx hxs =>
    rw [List.cons_append, List.append_assoc] at hcs
    obtain ⟨rest, htakes, hrest⟩ := hW x (t :: ts) (us ++ next) hx cs hcs
    -- Each further value takes a token, and each token a character of what is left.
    have hfuel : xs.length ≤ rest.length + 1 := by
      have h₁ := hxs.length_le
      have h₂ := hrest.length_le
      rw [List.length_append] at h₂
      omega
    obtain ⟨rest', htakes', hrest'⟩ := hxs.takes_more hW hstop hfuel hrest
    exact ⟨rest', takes_many_cons htakes htakes', hrest'⟩

end Reads

end Telemetry.Source
