import Telemetry.Proofs.TemplateText

/-!
# What the text of a template means

A template is a list of texts, places of attributes and repetitions, which may be nested. What it
comes to in a context is told by rules, node by node, and this is what reading its text and filling
it in comes to.

* `Template.isWellFormed`: the templates that have a text. `exists_bodyStart` says that no two
  closing braces meet in one.
* `Finds`: what an attribute is in some scopes.
* `Node.Yields`, `Yields`, `YieldsEach`: the rules for a node, for a list of nodes, and for a body
  that is repeated. By `yields_renderAll` and `renderAll_eq_of_yields` filling in follows them.
* `renderText_evaluates`: reading and filling in, by the rules.
-/

namespace Telemetry

/-! ## Templates that have a text -/

/-- Whether two closing braces stand next to each other. -/
def hasBracePair : List Char → Bool
  | a :: b :: cs => (a == '\x7d' && b == '\x7d') || hasBracePair (b :: cs)
  | _ => false

/-- Whether a node is a text, and not to be filled in. -/
def Node.isText : Node → Bool
  | .text _ => true
  | .attribute _ | .each _ _ => false

theorem Node.exists_of_isText {node : Node} (h : node.isText = true) :
    ∃ value, node = .text value := by
  cases node <;> cases h
  exact ⟨_, rfl⟩

/-- Whether the last node is a text that ends with a closing brace. -/
def endsBrace (nodes : List Node) : Bool :=
  match nodes.getLast? with
  | some (.text value) => value.toList.getLast? == some '\x7d'
  | _ => false

mutual

/-- Whether a node has a text. `inside` says whether it stands in a body, where two closing braces
would be the end of it. -/
def Node.isWellFormed (inside : Bool) : Node → Bool
  | .text value => !inside || !hasBracePair value.toList
  | .attribute name => isAttributeName name
  | .each name body => isAttributeName name && nodesWellFormed true body && !endsBrace body

/-- Whether all of some nodes have a text, and no two texts are next to each other. -/
def nodesWellFormed (inside : Bool) : List Node → Bool
  | [] => true
  | node :: rest =>
    node.isWellFormed inside && !(node.isText && rest.head?.any Node.isText) &&
      nodesWellFormed inside rest

end

/-- Whether a template has a text. -/
def Template.isWellFormed (template : Template) : Bool := nodesWellFormed false template

/-- In a text without a pair no braces meet, nor where it ends if it does not end with one. -/
theorem exists_textStart {brace : Bool} {cs : List Char} (hpair : hasBracePair cs = false)
    (hlast : brace = true → cs.getLast? ≠ some '\x7d') :
    ∃ start, textStart brace cs = some start ∧
      (start = true → startsBrace cs = true ∨ (cs = [] ∧ brace = true)) := by
  induction cs with
  | nil => exact ⟨brace, rfl, fun hbrace => .inr ⟨rfl, hbrace⟩⟩
  | cons c cs ih =>
    have hpair' : hasBracePair cs = false := by
      cases cs with
      | nil => rfl
      | cons d cs =>
        rw [hasBracePair, Bool.or_eq_false_iff] at hpair
        exact hpair.2
    have hlast' : brace = true → cs.getLast? ≠ some '\x7d' := by
      intro hbrace
      cases cs with
      | nil => simp
      | cons d cs =>
        rw [← List.getLast?_cons_cons (a := c)]
        exact hlast hbrace
    obtain ⟨next, hnext, hstart⟩ := ih hpair' hlast'
    cases next with
    | false => exact ⟨c == '\x7d', by rw [textStart, hnext], .inl⟩
    | true =>
      have hc : c ≠ '\x7d' := by
        rintro rfl
        rcases hstart rfl with hbrace | ⟨rfl, hbrace⟩
        · cases cs with
          | nil => cases hbrace
          | cons d cs =>
            rw [startsBrace] at hbrace
            simp [hasBracePair, hbrace] at hpair
        · exact hlast hbrace rfl
      exact ⟨false, by rw [textStart, hnext]; exact if_neg hc, fun h => by cases h⟩

theorem endsBrace_of_cons {node : Node} {rest : List Node} (h : endsBrace (node :: rest) = false) :
    endsBrace rest = false := by
  cases rest with
  | nil => rfl
  | cons node' rest =>
    rw [endsBrace, List.getLast?_cons_cons] at h
    exact h

mutual

theorem Node.start_of_wellFormed (brace : Bool) : (node : Node) → node.isText = false →
    node.isWellFormed true = true → node.start brace = some false
  | .text _, htext, _ => by cases htext
  | .attribute name, _, h => by
    rw [Node.isWellFormed] at h
    rw [Node.start, if_pos h]
  | .each name body, _, h => by
    rw [Node.isWellFormed, Bool.and_eq_true, Bool.and_eq_true, Bool.not_eq_true'] at h
    obtain ⟨⟨hname, hbody⟩, hends⟩ := h
    obtain ⟨start, hstart, -⟩ := exists_bodyStart body hbody fun _ => hends
    rw [Node.start, hname, hstart]
    rfl

/-- In a body without pairs no braces meet, nor where it ends. -/
theorem exists_bodyStart {brace : Bool} : (body : List Node) → nodesWellFormed true body = true →
    (brace = true → endsBrace body = false) →
    ∃ start, bodyStart brace body = some start ∧
      (start = true → body.head?.any Node.isText = true ∨ (body = [] ∧ brace = true))
  | [], _, _ => ⟨brace, rfl, fun hbrace => .inr ⟨rfl, hbrace⟩⟩
  | node :: rest, h, hends => by
    rw [nodesWellFormed, Bool.and_eq_true, Bool.and_eq_true, Bool.not_eq_true',
      Bool.and_eq_false_iff] at h
    obtain ⟨⟨hnode, hadjacent⟩, hrest⟩ := h
    obtain ⟨next, hnext, hstart⟩ :=
      exists_bodyStart rest hrest fun hbrace => endsBrace_of_cons (hends hbrace)
    cases htext : node.isText with
    | false =>
      refine ⟨false, ?_, fun h => by cases h⟩
      rw [bodyStart, hnext]
      exact node.start_of_wellFormed next htext hnode
    | true =>
      -- What follows a text is no text, so it begins with a brace only if it is the end.
      have hlast : next = true → rest = [] ∧ brace = true := by
        intro htrue
        refine (hstart htrue).resolve_left fun hany => ?_
        rw [htext, hany] at hadjacent
        simp at hadjacent
      obtain ⟨value, rfl⟩ := Node.exists_of_isText htext
      have hpair : hasBracePair value.toList = false := by
        simpa [Node.isWellFormed] using hnode
      obtain ⟨start, htextStart, -⟩ := exists_textStart hpair fun htrue => by
        obtain ⟨rfl, hbrace⟩ := hlast htrue
        exact beq_eq_false_iff_ne.1 (hends hbrace)
      exact ⟨start, by rw [bodyStart, hnext]; exact htextStart, fun _ => .inl rfl⟩

end

theorem Node.isReadable_of_wellFormed : (node : Node) → node.isWellFormed false = true →
    node.isReadable = true
  | .text _, _ => rfl
  | .attribute name, h => by
    rw [Node.isReadable, (Node.attribute name).start_of_wellFormed false rfl h]
    rfl
  | .each name body, h => by
    rw [Node.isReadable, (Node.each name body).start_of_wellFormed false rfl h]
    rfl

theorem Template.isReadable_of_wellFormed {template : Template}
    (h : template.isWellFormed = true) : template.isReadable = true := by
  rw [Template.isReadable, List.all_eq_true]
  rw [Template.isWellFormed] at h
  induction template with
  | nil => exact List.forall_mem_nil _
  | cons node rest ih =>
    rw [nodesWellFormed, Bool.and_eq_true, Bool.and_eq_true] at h
    exact List.forall_mem_cons.2 ⟨node.isReadable_of_wellFormed h.1.1, ih h.2⟩

/-! ## The rules -/

/-- What an attribute is: what the innermost of the scopes that have it says. Inner scopes stand in
front. -/
def Finds (scopes : List Context) (name : String) (c : Context) : Prop :=
  ∃ inner scope outer, scopes = inner ++ scope :: outer ∧ scope.get? name = some c ∧
    ∀ s ∈ inner, s.get? name = none

mutual

/-- What a node comes to. -/
inductive Node.Yields : List Context → Node → Except TemplateError String → Prop where
  | text (scopes : List Context) (value : String) : Node.Yields scopes (.text value) (.ok value)
  | place {scopes : List Context} {name value : String} (h : Finds scopes name (.text value)) :
    Node.Yields scopes (.attribute name) (.ok value)
  | placeUnknown {scopes : List Context} {name : String} (h : ∀ s ∈ scopes, s.get? name = none) :
    Node.Yields scopes (.attribute name) (.error (.unknownAttribute name))
  | placeNoText {scopes : List Context} {name : String} {c : Context} (h : Finds scopes name c)
    (hc : ∀ value, c ≠ .text value) :
    Node.Yields scopes (.attribute name) (.error (.notAScalar name))
  | each {scopes items : List Context} {name : String} {body : List Node}
    {r : Except TemplateError String} (h : Finds scopes name (.list items))
    (hbody : YieldsEach scopes body items r) : Node.Yields scopes (.each name body) r
  | eachUnknown {scopes : List Context} {name : String} {body : List Node}
    (h : ∀ s ∈ scopes, s.get? name = none) :
    Node.Yields scopes (.each name body) (.error (.unknownAttribute name))
  | eachNoList {scopes : List Context} {name : String} {body : List Node} {c : Context}
    (h : Finds scopes name c) (hc : ∀ items, c ≠ .list items) :
    Node.Yields scopes (.each name body) (.error (.notAList name))

/-- What nodes come to, one behind the other, up to the first that is at fault. -/
inductive Yields : List Context → List Node → Except TemplateError String → Prop where
  | nil (scopes : List Context) : Yields scopes [] (.ok "")
  | cons {scopes : List Context} {node : Node} {rest : List Node} {value : String}
    {r : Except TemplateError String} (h : node.Yields scopes (.ok value))
    (hrest : Yields scopes rest r) : Yields scopes (node :: rest) (r.map (value ++ ·))
  | fault {scopes : List Context} {node : Node} {rest : List Node} {e : TemplateError}
    (h : node.Yields scopes (.error e)) : Yields scopes (node :: rest) (.error e)

/-- What a body comes to, once for each of some items, which is then the innermost scope. -/
inductive YieldsEach :
    List Context → List Node → List Context → Except TemplateError String → Prop where
  | nil (scopes : List Context) (body : List Node) : YieldsEach scopes body [] (.ok "")
  | cons {scopes items : List Context} {body : List Node} {item : Context} {value : String}
    {r : Except TemplateError String} (h : Yields (item :: scopes) body (.ok value))
    (hitems : YieldsEach scopes body items r) :
    YieldsEach scopes body (item :: items) (r.map (value ++ ·))
  | fault {scopes items : List Context} {body : List Node} {item : Context} {e : TemplateError}
    (h : Yields (item :: scopes) body (.error e)) :
    YieldsEach scopes body (item :: items) (.error e)

end

/-! ## Filling in follows the rules -/

section Finding

variable {scopes : List Context} {name : String}

theorem findAttribute_eq_ok_iff {c : Context} :
    findAttribute scopes name = .ok c ↔ Finds scopes name c := by
  rw [findAttribute, Finds, ← List.findSome?_eq_some_iff]
  cases scopes.findSome? (·.get? name) <;> simp

theorem findAttribute_of_unknown (h : ∀ s ∈ scopes, s.get? name = none) :
    findAttribute scopes name = .error (.unknownAttribute name) := by
  rw [findAttribute, List.findSome?_eq_none_iff.2 h]

theorem finds_or_unknown (scopes : List Context) (name : String) :
    (∃ c, Finds scopes name c) ∨ ∀ s ∈ scopes, s.get? name = none := by
  cases h : scopes.findSome? (·.get? name) with
  | none => exact .inr (List.findSome?_eq_none_iff.1 h)
  | some c => exact .inl ⟨c, List.findSome?_eq_some_iff.1 h⟩

end Finding

/-- What a body is filled in with for some items. -/
def renderEach (scopes : List Context) (body : List Node) :
    List Context → Except TemplateError String
  | [] => .ok ""
  | item :: items => followedBy (renderAll (item :: scopes) body) (renderEach scopes body items)

theorem renderEach_eq (scopes : List Context) (body : List Node) (items : List Context) :
    renderEach scopes body items =
      (do return String.join (← items.mapM fun item => renderAll (item :: scopes) body)) := by
  induction items with
  | nil => rfl
  | cons item items ih =>
    rw [renderEach, ih, List.mapM_cons]
    cases renderAll (item :: scopes) body with
    | error e => rfl
    | ok value =>
      cases items.mapM fun item => renderAll (item :: scopes) body with
      | error e => rfl
      | ok parts => exact congrArg Except.ok String.join_cons.symm

theorem renderIn_each_eq {scopes items : List Context} {name : String}
    (h : findAttribute scopes name = .ok (.list items)) (body : List Node) :
    (Node.each name body).renderIn scopes = renderEach scopes body items := by
  rw [Node.renderIn, h, renderEach_eq]
  rfl

theorem ok_followedBy (value : String) (r : Except TemplateError String) :
    followedBy (.ok value) r = r.map (value ++ ·) := by
  cases r <;> rfl

theorem yieldsEach_renderEach {scopes : List Context} {body : List Node}
    (h : ∀ item, Yields (item :: scopes) body (renderAll (item :: scopes) body)) :
    (items : List Context) → YieldsEach scopes body items (renderEach scopes body items)
  | [] => .nil scopes body
  | item :: items => by
    have hitem := h item
    rw [renderEach]
    cases hvalue : renderAll (item :: scopes) body with
    | error e =>
      rw [hvalue] at hitem
      exact .fault hitem
    | ok value =>
      rw [hvalue] at hitem
      rw [ok_followedBy]
      exact .cons hitem (yieldsEach_renderEach h items)

mutual

theorem Node.yields_renderIn (scopes : List Context) :
    (node : Node) → node.Yields scopes (node.renderIn scopes)
  | .text value => .text scopes value
  | .attribute name => by
    rw [Node.renderIn]
    rcases finds_or_unknown scopes name with ⟨c, hc⟩ | hunknown
    · rw [findAttribute_eq_ok_iff.2 hc]
      cases c with
      | text value => exact .place hc
      | list items => exact .placeNoText hc fun _ h => by cases h
      | «attributes» entries => exact .placeNoText hc fun _ h => by cases h
    · rw [findAttribute_of_unknown hunknown]
      exact .placeUnknown hunknown
  | .each name body => by
    rcases finds_or_unknown scopes name with ⟨c, hc⟩ | hunknown
    · cases c with
      | list items =>
        rw [renderIn_each_eq (findAttribute_eq_ok_iff.2 hc)]
        have hbody item := yields_renderAll (item :: scopes) body
        exact .each hc (yieldsEach_renderEach hbody items)
      | text value =>
        rw [Node.renderIn, findAttribute_eq_ok_iff.2 hc]
        exact .eachNoList hc fun _ h => by cases h
      | «attributes» entries =>
        rw [Node.renderIn, findAttribute_eq_ok_iff.2 hc]
        exact .eachNoList hc fun _ h => by cases h
    · rw [Node.renderIn, findAttribute_of_unknown hunknown]
      exact .eachUnknown hunknown

/-- What nodes are filled in with is what they come to. -/
theorem yields_renderAll (scopes : List Context) :
    (nodes : List Node) → Yields scopes nodes (renderAll scopes nodes)
  | [] => .nil scopes
  | node :: rest => by
    have hnode := node.yields_renderIn scopes
    rw [renderAll_cons_eq]
    cases hvalue : node.renderIn scopes with
    | error e =>
      rw [hvalue] at hnode
      exact .fault hnode
    | ok value =>
      rw [hvalue] at hnode
      rw [ok_followedBy]
      exact .cons hnode (yields_renderAll scopes rest)

end

theorem renderEach_eq_of_yieldsEach {scopes : List Context} {body : List Node}
    (hbody : ∀ item r, Yields (item :: scopes) body r → renderAll (item :: scopes) body = r) :
    (items : List Context) → (r : Except TemplateError String) → YieldsEach scopes body items r →
      renderEach scopes body items = r
  | [], _, h => by
    cases h
    rfl
  | item :: items, _, h => by
    rw [renderEach]
    cases h with
    | cons hitem hitems =>
      rw [hbody _ _ hitem, renderEach_eq_of_yieldsEach hbody items _ hitems, ok_followedBy]
    | fault hitem =>
      rw [hbody _ _ hitem]
      rfl

mutual

theorem Node.renderIn_eq_of_yields {scopes : List Context} : (node : Node) →
    (r : Except TemplateError String) → node.Yields scopes r → node.renderIn scopes = r
  | .text value, _, h => by
    cases h
    rfl
  | .attribute name, _, h => by
    rw [Node.renderIn]
    cases h with
    | place hfinds =>
      rw [findAttribute_eq_ok_iff.2 hfinds]
      rfl
    | placeUnknown hunknown =>
      rw [findAttribute_of_unknown hunknown]
      rfl
    | @placeNoText _ _ c hfinds hc =>
      rw [findAttribute_eq_ok_iff.2 hfinds]
      cases c with
      | text value => exact absurd rfl (hc value)
      | list items => rfl
      | «attributes» entries => rfl
  | .each name body, _, h => by
    cases h with
    | each hfinds hitems =>
      rw [renderIn_each_eq (findAttribute_eq_ok_iff.2 hfinds)]
      exact renderEach_eq_of_yieldsEach (fun _ r => renderAll_eq_of_yields body r) _ _ hitems
    | eachUnknown hunknown =>
      rw [Node.renderIn, findAttribute_of_unknown hunknown]
      rfl
    | @eachNoList _ _ _ c hfinds hc =>
      rw [Node.renderIn, findAttribute_eq_ok_iff.2 hfinds]
      cases c with
      | text value => rfl
      | list items => exact absurd rfl (hc items)
      | «attributes» entries => rfl

/-- Nodes come to nothing else than what they are filled in with. -/
theorem renderAll_eq_of_yields {scopes : List Context} : (nodes : List Node) →
    (r : Except TemplateError String) → Yields scopes nodes r → renderAll scopes nodes = r
  | [], _, h => by
    cases h
    rfl
  | node :: rest, _, h => by
    rw [renderAll_cons_eq]
    cases h with
    | cons hnode hrest =>
      rw [node.renderIn_eq_of_yields _ hnode, renderAll_eq_of_yields rest _ hrest, ok_followedBy]
    | fault hnode =>
      rw [node.renderIn_eq_of_yields _ hnode]
      rfl

end

/-! ## Reading and filling in -/

/-- **The text of a template is evaluated by the rules.** This holds at any depth and in every
context, and the rules leave one outcome. In particular, a text whose dollar signs are doubled
stands for itself. -/
theorem renderText_evaluates {template : Template} (h : template.isWellFormed = true)
    (context : Context) :
    (∀ r, renderText template.print context = r ↔ Yields [context] template r) ∧
    ∀ text : String, renderText (String.ofList (escaped text.toList)) context = .ok text := by
  refine ⟨fun r => ?_, fun text => ?_⟩
  · rw [renderText_print (Template.isReadable_of_wellFormed h)]
    constructor
    · rintro rfl
      exact yields_renderAll [context] template
    · exact renderAll_eq_of_yields template r
  · have hprint : Template.print [.text text] = String.ofList (escaped text.toList) := by
      simp [Template.print, printAll, Node.print]
    rw [← hprint, renderText_print rfl]
    exact congrArg Except.ok String.append_empty

/-- A table, with braces next to what ends the places and the repetitions. -/
def cells : Template :=
  [.text "$\x7b", .each "rows" [.text "[", .attribute "row", .text "\x7d:",
    .each "cells" [.attribute "cell", .attribute "row"], .text "\x7d]"], .text "\x7d\x7d"]

/-- A row with one cell, and what else there is. -/
def cellRows (others : List Context) : Context :=
  .attributes [("rows", .list (.attributes [("row", .text "1"),
    ("cells", .list [.attributes [("cell", .text "a")]])] :: others))]

/-- What is repeated ends where it is meant to, and a cell shows the name of the row around it. In a
second row that has no cells, this is what is at fault, after all of the first. -/
theorem renderText_evaluates_cells :
    cells.isWellFormed = true ∧
    cells.print = "$$\x7b$\x7b\x7brows:[$\x7brow\x7d\x7d:" ++
      "$\x7b\x7bcells:$\x7bcell\x7d$\x7brow\x7d\x7d\x7d\x7d]\x7d\x7d\x7d\x7d" ∧
    renderText cells.print (cellRows []) = .ok "$\x7b[1\x7d:a1\x7d]\x7d\x7d" ∧
    renderText cells.print (cellRows [.attributes [("row", .text "2")]]) =
      .error (.unknownAttribute "cells") ∧
    renderText "$$$$\x7b\x7brows:\x7d\x7d" (cellRows []) = .ok "$$\x7b\x7brows:\x7d\x7d" := by
  have hcells : cells.isWellFormed = true := by decide +kernel
  have heval (context : Context) := (renderText_evaluates hcells context).1
  refine ⟨hcells, by decide +kernel, ?_, ?_, ?_⟩
  · exact (heval _ _).2 (yields_renderAll [cellRows []] cells)
  · exact (heval _ _).2 (yields_renderAll [cellRows [.attributes [("row", .text "2")]]] cells)
  · exact (renderText_evaluates hcells (cellRows [])).2 "$$\x7b\x7brows:\x7d\x7d"

end Telemetry
