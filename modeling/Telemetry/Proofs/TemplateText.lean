import Telemetry.Proofs.Except
import Telemetry.Template.Text

/-!
# Templates written as texts

A template can be written as a text from which it is read back. Dollar signs are doubled. In what is
repeated, no two closing braces may come in a row before the end, since the first pair that is met
ends it: neither in a text, nor in one text and the next, nor in a text and the end itself.

* `Template.print`: the text of a template.
* `Node.start`, `bodyStart`: the check that closing braces do not meet, which goes from the end to
  the front. `Template.isReadable` is what it comes to.
* `Reads`: what is read of some characters, whatever comes behind. `Node.reads_print` and
  `reads_printAll` are about the characters of nodes.
* `Template.joined`, `Template.ofText_print`: what is read back: the template, with texts that
  follow each other as one.
* `renderText_print`: filling it in gives what the template gives.
-/

namespace Telemetry

/-! ## Printing -/

/-- A text with its dollar signs doubled. -/
def escaped : List Char → List Char
  | [] => []
  | c :: cs => if c = '$' then '$' :: '$' :: escaped cs else c :: escaped cs

mutual

/-- The characters of a node. -/
def Node.print : Node → List Char
  | .text value => escaped value.toList
  | .attribute name => '$' :: '\x7b' :: (name.toList ++ ['\x7d'])
  | .each name body =>
    '$' :: '\x7b' :: '\x7b' :: (name.toList ++ ':' :: (printAll body ++ ['\x7d', '\x7d']))

/-- The characters of nodes. -/
def printAll : List Node → List Char
  | [] => []
  | node :: rest => node.print ++ printAll rest

end

/-- The text of a template. -/
def Template.print (template : Template) : String := String.ofList (printAll template)

/-! ## Closing braces -/

/-- Whether a name can stand for an attribute in a text. -/
def isAttributeName (name : String) : Bool := !name.toList.isEmpty && name.toList.all isNameChar

/-- Whether characters begin with a closing brace. -/
def startsBrace : List Char → Bool
  | [] => false
  | c :: _ => c == '\x7d'

/-- Whether a text begins with a closing brace, where `brace` says whether what follows it does.
There is no answer if two of them meet. -/
def textStart (brace : Bool) : List Char → Option Bool
  | [] => some brace
  | c :: cs =>
    match textStart brace cs with
    | some true => if c = '\x7d' then none else some false
    | some false => some (c == '\x7d')
    | none => none

mutual

/-- Whether a node of a body begins with a closing brace, as `textStart` does for a text. -/
def Node.start (brace : Bool) : Node → Option Bool
  | .text value => textStart brace value.toList
  | .attribute name => if isAttributeName name then some false else none
  | .each name body =>
    if isAttributeName name && (bodyStart true body).isSome then some false else none

/-- Whether the nodes of a body begin with a closing brace. -/
def bodyStart (brace : Bool) : List Node → Option Bool
  | [] => some brace
  | node :: rest => (bodyStart brace rest).bind fun brace => node.start brace

end

/-- Whether a node can stand outside of all bodies, where braces are free. -/
def Node.isReadable (node : Node) : Bool :=
  match node with
  | .text _ => true
  | .attribute _ | .each _ _ => (node.start false).isSome

/-- Whether a template can be written as a text. -/
def Template.isReadable (template : Template) : Bool := template.all Node.isReadable

/-! ## Reading names -/

theorem isBlank_of_isNameChar {c : Char} (h : isNameChar c = true) : Text.isBlank c = false := by
  delta isNameChar Char.isAlphanum Char.isAlpha Char.isUpper Char.isLower Char.isDigit at h
  simp only [Bool.or_eq_true, Bool.and_eq_true, decide_eq_true_eq, beq_iff_eq, ge_iff_le,
    UInt32.le_iff_toNat_le] at h
  rcases h with h | rfl
  · simp [Text.isBlank] at h ⊢
    omega
  · rfl

theorem trim_eq_self {cs : List Char} (h : ∀ c ∈ cs, Text.isBlank c = false) :
    Text.trim cs = cs := by
  have hstart : ∀ cs : List Char, (∀ c ∈ cs, Text.isBlank c = false) → Text.trimStart cs = cs := by
    intro cs h
    cases cs with
    | nil => rfl
    | cons c cs =>
      rw [Text.trimStart, List.dropWhile_cons_of_neg]
      simp [h c List.mem_cons_self]
  rw [Text.trim, hstart cs h, hstart cs.reverse (by simpa using h), List.reverse_reverse]

/-- A name is read up to the character that ends it. -/
theorem takeName_print (stop : Char) (hstop : isNameChar stop = false) {name : String}
    (hname : isAttributeName name = true) (position : Nat) (more : List Char) :
    ∃ next, takeName stop position (name.toList ++ stop :: more) = .ok (name, next, more) := by
  rw [isAttributeName, Bool.and_eq_true, Bool.not_eq_true', List.all_eq_true] at hname
  obtain ⟨hne, hchars⟩ := hname
  have hinside : ∀ c ∈ name.toList, decide (c ≠ stop) = true := by
    intro c hc
    rw [decide_eq_true_eq]
    rintro rfl
    exact absurd (hchars _ hc) (by simp [hstop])
  have htake : (name.toList ++ stop :: more).takeWhile (· ≠ stop) = name.toList := by
    rw [List.takeWhile_append_of_pos hinside]
    simp
  have hdrop : (name.toList ++ stop :: more).dropWhile (· ≠ stop) = stop :: more := by
    rw [List.dropWhile_append_of_pos hinside]
    simp
  have htrim : Text.trim name.toList = name.toList :=
    trim_eq_self fun c hc => isBlank_of_isNameChar (hchars c hc)
  refine ⟨position + utf8Length name.toList + stop.utf8Size, ?_⟩
  rw [takeName, hdrop]
  dsimp only
  rw [htake, htrim, if_neg, String.ofList_toList]
  simpa [hne] using hchars

/-! ## Reading characters -/

section Steps

variable (position : Nat) (rest : List Char) (outer : List OpenEach) (nodes : List Node)

theorem readNodes_close (e : OpenEach) :
    readNodes position ('\x7d' :: '\x7d' :: rest) (e :: outer) nodes =
      readNodes (position + 2) rest outer (.each e.name nodes.reverse :: e.before) := by
  rw [readNodes]

theorem readNodes_dollar :
    readNodes position ('$' :: '$' :: rest) outer nodes =
      readNodes (position + 2) rest outer (addChar '$' nodes) := by
  rw [readNodes]

theorem readNodes_char {c : Char} (hc : c ≠ '$')
    (h : outer = [] ∨ c ≠ '\x7d' ∨ startsBrace rest = false) :
    readNodes position (c :: rest) outer nodes =
      readNodes (position + c.utf8Size) rest outer (addChar c nodes) := by
  rw [readNodes]
  case x =>
    rintro tail e outer' rfl rfl rfl
    simp [startsBrace] at h
  all_goals exact fun _ heq => absurd heq hc

end Steps

/-- What is read of characters `cs` in front of others: a further part of the template. -/
def Reads (outer : List OpenEach) (cs more : List Char) (nodes nodes' : List Node) : Prop :=
  ∀ position, ∃ next, readNodes position (cs ++ more) outer nodes = readNodes next more outer nodes'

namespace Reads

variable {outer : List OpenEach} {cs cs' more : List Char} {nodes nodes' nodes'' : List Node}

theorem refl : Reads outer [] more nodes nodes := fun position => ⟨position, rfl⟩

theorem append (h : Reads outer cs (cs' ++ more) nodes nodes')
    (h' : Reads outer cs' more nodes' nodes'') : Reads outer (cs ++ cs') more nodes nodes'' := by
  intro position
  obtain ⟨middle, hmiddle⟩ := h position
  obtain ⟨next, hnext⟩ := h' middle
  exact ⟨next, by rw [List.append_assoc, hmiddle, hnext]⟩

/-- A character of a text is read, unless it begins a pair of braces that ends a body. -/
theorem char {c : Char} (h : Reads outer (escaped cs) more (addChar c nodes) nodes')
    (hc : outer = [] ∨ c ≠ '\x7d' ∨ startsBrace (escaped cs ++ more) = false) :
    Reads outer (escaped (c :: cs)) more nodes nodes' := by
  intro position
  rw [escaped]
  split
  · rename_i hdollar
    subst hdollar
    obtain ⟨next, hnext⟩ := h (position + 2)
    exact ⟨next, by rw [List.cons_append, List.cons_append, readNodes_dollar, hnext]⟩
  · rename_i hdollar
    obtain ⟨next, hnext⟩ := h (position + c.utf8Size)
    exact ⟨next, by rw [List.cons_append, readNodes_char _ _ _ _ hdollar hc, hnext]⟩

theorem place {name : String} (hname : isAttributeName name = true) :
    Reads outer (Node.attribute name).print more nodes (.attribute name :: nodes) := by
  intro position
  obtain ⟨next, hnext⟩ := takeName_print '\x7d' (by decide) hname (position + 2) more
  have hbrace : ∀ tail, name.toList ++ '\x7d' :: more ≠ '\x7b' :: tail := by
    rw [isAttributeName, Bool.and_eq_true, List.all_eq_true] at hname
    intro tail heq
    cases hlist : name.toList with
    | nil => simp [hlist] at hname
    | cons c cs =>
      rw [hlist, List.cons_append] at heq
      have hchar := hname.2 c (by simp [hlist])
      rw [(List.cons.inj heq).1] at hchar
      exact absurd hchar (by decide)
  refine ⟨next, ?_⟩
  simp only [Node.print, List.cons_append, List.append_assoc, List.nil_append]
  rw [readNodes]
  · split <;> simp_all
  · exact hbrace

/-- A repetition is read if its body is, up to the braces that end it. -/
theorem each {name : String} {body body' : List Node} (hname : isAttributeName name = true)
    (hbody : ∀ e, Reads (e :: outer) (printAll body) ('\x7d' :: '\x7d' :: more) [] body') :
    Reads outer (Node.each name body).print more nodes (.each name body'.reverse :: nodes) := by
  intro position
  obtain ⟨inner, hinner⟩ := takeName_print ':' (by decide) hname (position + 3)
    (printAll body ++ '\x7d' :: '\x7d' :: more)
  obtain ⟨next, hnext⟩ := hbody ⟨position, name, nodes⟩ inner
  refine ⟨next + 2, ?_⟩
  rw [← readNodes_close next more outer body' ⟨position, name, nodes⟩, ← hnext]
  simp only [Node.print, List.cons_append, List.append_assoc, List.nil_append]
  rw [readNodes]
  split <;> simp_all

end Reads

/-! ## Reading nodes -/

/-- The nodes with the characters of a text behind them. The last node is first. -/
def addChars (nodes : List Node) (cs : List Char) : List Node :=
  cs.foldl (fun nodes c => addChar c nodes) nodes

mutual

/-- What is read so far, with a node behind it. The last node is first. -/
def Node.absorb (nodes : List Node) : Node → List Node
  | .text value => addChars nodes value.toList
  | .attribute name => .attribute name :: nodes
  | .each name body => .each name (absorbAll [] body).reverse :: nodes

/-- What is read so far, with further nodes behind it. -/
def absorbAll (nodes : List Node) : List Node → List Node
  | [] => nodes
  | node :: rest => absorbAll (node.absorb nodes) rest

end

/-- A template in which texts that follow each other are one. -/
def Template.joined (template : Template) : Template := (absorbAll [] template).reverse

theorem startsBrace_escaped (c : Char) (cs more : List Char) :
    startsBrace (escaped (c :: cs) ++ more) = (c == '\x7d') := by
  rw [escaped]
  split
  · rename_i hdollar
    rw [hdollar]
    rfl
  · rfl

/-- A text outside of all bodies is read. -/
theorem reads_escaped_top (cs more : List Char) (nodes : List Node) :
    Reads [] (escaped cs) more nodes (addChars nodes cs) := by
  induction cs generalizing nodes with
  | nil => exact .refl
  | cons c cs ih => exact (ih (addChar c nodes)).char (.inl rfl)

/-- A text in which no two closing braces meet is read, and begins with one if the check says so. -/
theorem reads_escaped {outer : List OpenEach} {more : List Char} {brace : Bool}
    (hmore : startsBrace more = true → brace = true) {cs : List Char} {start : Bool}
    (h : textStart brace cs = some start) (nodes : List Node) :
    Reads outer (escaped cs) more nodes (addChars nodes cs) ∧
      (startsBrace (escaped cs ++ more) = true → start = true) := by
  induction cs generalizing start nodes with
  | nil =>
    cases h
    exact ⟨.refl, hmore⟩
  | cons c cs ih =>
    rw [textStart] at h
    split at h
    · rename_i hrest
      split at h
      · cases h
      · rename_i hc
        cases h
        refine ⟨(ih hrest _).1.char (.inr (.inl hc)), ?_⟩
        rw [startsBrace_escaped]
        simpa using hc
    · rename_i hrest
      cases h
      obtain ⟨hreads, hstart⟩ := ih hrest (addChar c nodes)
      refine ⟨hreads.char (.inr (.inr (Bool.eq_false_iff.2 fun htrue => ?_))), ?_⟩
      · cases hstart htrue
      · rw [startsBrace_escaped]
        exact id
    · cases h

mutual

theorem Node.reads_print {outer : List OpenEach} {more : List Char} {brace start : Bool}
    (hmore : startsBrace more = true → brace = true) (nodes : List Node) :
    (node : Node) → node.start brace = some start →
      Reads outer node.print more nodes (node.absorb nodes) ∧
        (startsBrace (node.print ++ more) = true → start = true)
  | .text value, h => reads_escaped hmore h nodes
  | .attribute name, h => by
    rw [Node.start] at h
    split at h
    · exact ⟨.place ‹_›, fun hbrace => by cases hbrace⟩
    · cases h
  | .each name body, h => by
    rw [Node.start] at h
    split at h
    · rename_i hcheck
      obtain ⟨hname, hbody⟩ := Bool.and_eq_true_iff.1 hcheck
      obtain ⟨start', hstart'⟩ := Option.isSome_iff_exists.1 hbody
      refine ⟨.each hname fun e => ?_, fun hbrace => by cases hbrace⟩
      exact (reads_printAll (fun _ => rfl) [] body hstart').1
    · cases h

/-- The nodes of a body are read, in front of what begins with a closing brace only if the check
was told so. -/
theorem reads_printAll {outer : List OpenEach} {more : List Char} {brace start : Bool}
    (hmore : startsBrace more = true → brace = true) (nodes : List Node) :
    (body : List Node) → bodyStart brace body = some start →
      Reads outer (printAll body) more nodes (absorbAll nodes body) ∧
        (startsBrace (printAll body ++ more) = true → start = true)
  | [], h => by
    cases h
    exact ⟨.refl, hmore⟩
  | node :: rest, h => by
    rw [bodyStart, Option.bind_eq_some_iff] at h
    obtain ⟨brace', hrest, hnode⟩ := h
    obtain ⟨hreads, hstart⟩ := reads_printAll hmore (node.absorb nodes) rest hrest
    obtain ⟨hreads', hstart'⟩ := node.reads_print hstart nodes hnode
    rw [printAll, List.append_assoc]
    exact ⟨hreads'.append hreads, hstart'⟩

end

/-- A node outside of all bodies is read. -/
theorem Node.reads_print_top (more : List Char) (nodes : List Node) :
    (node : Node) → node.isReadable = true → Reads [] node.print more nodes (node.absorb nodes)
  | .text value, _ => reads_escaped_top value.toList more nodes
  | .attribute name, h => by
    obtain ⟨_, hstart⟩ := Option.isSome_iff_exists.1 h
    exact ((Node.attribute name).reads_print (fun _ => rfl) nodes hstart).1
  | .each name body, h => by
    obtain ⟨_, hstart⟩ := Option.isSome_iff_exists.1 h
    exact ((Node.each name body).reads_print (fun _ => rfl) nodes hstart).1

/-- **A template is read back from its text**, with texts that follow each other as one. -/
theorem Template.ofText_print {template : Template} (h : template.isReadable = true) :
    Template.ofText template.print = .ok template.joined := by
  have hreads : ∀ (t : List Node) (nodes : List Node), (∀ node ∈ t, node.isReadable = true) →
      Reads [] (printAll t) [] nodes (absorbAll nodes t) := by
    intro t
    induction t with
    | nil => exact fun nodes _ => .refl
    | cons node rest ih =>
      intro nodes hnodes
      rw [List.forall_mem_cons] at hnodes
      exact (node.reads_print_top _ nodes hnodes.1).append (ih (node.absorb nodes) hnodes.2)
  obtain ⟨next, hnext⟩ := hreads template [] (List.all_eq_true.1 h) 0
  rw [List.append_nil] at hnext
  rw [Template.ofText, Template.print, String.toList_ofList, hnext, readNodes]
  rfl

/-! ## Filling in what was read -/

/-- One outcome behind another: both texts, or the first fault. -/
def followedBy (x y : Except TemplateError String) : Except TemplateError String := do
  return (← x) ++ (← y)

section FollowedBy

variable (x y z : Except TemplateError String)

theorem followedBy_assoc : followedBy (followedBy x y) z = followedBy x (followedBy y z) := by
  cases x <;> cases y <;> cases z <;>
    simp [followedBy, Bind.bind, Except.bind, pure, Except.pure, String.append_assoc]

@[simp] theorem empty_followedBy : followedBy (.ok "") x = x := by
  cases x <;> simp [followedBy, Bind.bind, Except.bind, pure, Except.pure]

@[simp] theorem followedBy_empty : followedBy x (.ok "") = x := by
  cases x <;> simp [followedBy, Bind.bind, Except.bind, pure, Except.pure]

end FollowedBy

section Filling

variable (scopes : List Context)

theorem renderAll_cons_eq (node : Node) (rest : List Node) :
    renderAll scopes (node :: rest) =
      followedBy (node.renderIn scopes) (renderAll scopes rest) := by
  rw [renderAll]
  rfl

theorem renderAll_append (nodes rest : List Node) :
    renderAll scopes (nodes ++ rest) =
      followedBy (renderAll scopes nodes) (renderAll scopes rest) := by
  induction nodes with
  | nil => rw [List.nil_append, renderAll, empty_followedBy]
  | cons node nodes ih =>
    rw [List.cons_append, renderAll_cons_eq, renderAll_cons_eq, ih, followedBy_assoc]

/-- What is filled in of a node stands behind all that was read before it. -/
theorem renderAll_reverse_cons (node : Node) (nodes : List Node) :
    renderAll scopes (node :: nodes).reverse =
      followedBy (renderAll scopes nodes.reverse) (node.renderIn scopes) := by
  rw [List.reverse_cons, renderAll_append, renderAll_cons_eq, renderAll, followedBy_empty]

theorem renderAll_addChar (c : Char) (nodes : List Node) :
    renderAll scopes (addChar c nodes).reverse =
      followedBy (renderAll scopes nodes.reverse) (.ok (String.singleton c)) := by
  unfold addChar
  split
  · rename_i value rest
    rw [renderAll_reverse_cons, renderAll_reverse_cons, followedBy_assoc]
    rfl
  · rw [renderAll_reverse_cons, Node.renderIn]

theorem renderAll_addChars (cs : List Char) (nodes : List Node) :
    renderAll scopes (addChars nodes cs).reverse =
      followedBy (renderAll scopes nodes.reverse) (.ok (String.ofList cs)) := by
  induction cs generalizing nodes with
  | nil => exact (followedBy_empty _).symm
  | cons c cs ih =>
    rw [addChars, List.foldl_cons, ← addChars, ih, renderAll_addChar, followedBy_assoc,
      String.ofList_cons]
    rfl

end Filling

mutual

theorem Node.renderAll_absorb (scopes : List Context) (nodes : List Node) :
    (node : Node) → renderAll scopes (node.absorb nodes).reverse =
      followedBy (renderAll scopes nodes.reverse) (node.renderIn scopes)
  | .text value => by
    rw [Node.absorb, renderAll_addChars, String.ofList_toList, Node.renderIn]
  | .attribute name => renderAll_reverse_cons scopes (.attribute name) nodes
  | .each name body => by
    have hbody (scopes : List Context) :
        renderAll scopes (absorbAll [] body).reverse = renderAll scopes body := by
      rw [renderAll_absorbAll scopes [] body, List.reverse_nil, renderAll, empty_followedBy]
    rw [Node.absorb, renderAll_reverse_cons, Node.renderIn, Node.renderIn]
    simp only [hbody]

/-- Texts that follow each other are filled in as if they were one. -/
theorem renderAll_absorbAll (scopes : List Context) (nodes : List Node) :
    (rest : List Node) → renderAll scopes (absorbAll nodes rest).reverse =
      followedBy (renderAll scopes nodes.reverse) (renderAll scopes rest)
  | [] => by rw [absorbAll, renderAll, followedBy_empty]
  | node :: rest => by
    rw [absorbAll, renderAll_absorbAll scopes _ rest, node.renderAll_absorb scopes nodes,
      renderAll_cons_eq, followedBy_assoc]

end

/-- **A template that is read from its text is filled as it is.** -/
theorem renderText_print {template : Template} (h : template.isReadable = true)
    (context : Context) : renderText template.print context = template.render context := by
  have hjoined : template.joined.render context = template.render context := by
    show renderAll [context] (absorbAll [] template).reverse = renderAll [context] template
    rw [renderAll_absorbAll [context] [] template, List.reverse_nil, renderAll, empty_followedBy]
  rw [renderText, Template.ofText_print h, ← hjoined]
  rfl

end Telemetry
