import Telemetry.Generate.Emission
import Telemetry.Proofs.Comments
import Telemetry.Proofs.Except

/-!
# Lines of generated modules

Which lines a filled template has can be read off the template. A line of it is a row of pieces
that begins where a line does and ends with a line break, at the top of the template or inside what
it repeats. What fills the places in front of it does not matter, as long as a text that ends a line
comes last.

* `EndsLine`, `Bears`: texts behind which a line begins, and texts with a given line.
* `Node.endsLine`: whether a template leads from the start of a line to the start of another one.
* `nodesWrite`: whether a template has a row of pieces as a line.
* `nodesWrite_sound`: then its text has the line, for all items on the way to it.
* `Emission.HasLine`: the lines of a module.
-/

namespace Telemetry

open Text

/-! ## Lines of texts -/

/-- A text behind which a line begins. -/
def EndsLine (x : List Char) : Prop := ∀ c, x.getLast? = some c → c = '\n'

theorem endsLine_nil : EndsLine [] := nofun

theorem endsLine_append {x y : List Char} (hy : EndsLine y) (hx : y = [] → EndsLine x) :
    EndsLine (x ++ y) := by
  intro c hc
  cases hlast : y.getLast? with
  | none =>
    have hnil := List.getLast?_eq_none_iff.1 hlast
    rw [hnil, List.append_nil] at hc
    exact hx hnil c hc
  | some c' =>
    rw [List.getLast?_append, hlast] at hc
    exact hy c (hlast.trans hc)

theorem EndsLine.append {x y : List Char} (hx : EndsLine x) (hy : EndsLine y) :
    EndsLine (x ++ y) :=
  endsLine_append hy fun _ => hx

theorem EndsLine.flatten {xs : List (List Char)} (h : ∀ x ∈ xs, EndsLine x) :
    EndsLine xs.flatten := by
  induction xs with
  | nil => exact endsLine_nil
  | cons x xs ih =>
    rw [List.forall_mem_cons] at h
    exact h.1.append (ih h.2)

/-- A text has a line. -/
def Bears (x line : List Char) : Prop :=
  ∃ before after, x = before ++ line ++ '\n' :: after ∧ EndsLine before

namespace Bears

variable {x y line : List Char}

theorem append_left (hx : EndsLine x) (h : Bears y line) : Bears (x ++ y) line := by
  obtain ⟨before, after, rfl, hbefore⟩ := h
  exact ⟨x ++ before, after, by simp, hx.append hbefore⟩

theorem append_right (h : Bears x line) (y : List Char) : Bears (x ++ y) line := by
  obtain ⟨before, after, rfl, hbefore⟩ := h
  exact ⟨before, after ++ y, by simp, hbefore⟩

/-- One of several texts, of which all end a line, has the line. -/
theorem flatten {xs : List (List Char)} (hxs : ∀ x ∈ xs, EndsLine x) (hx : x ∈ xs)
    (h : Bears x line) : Bears xs.flatten line := by
  induction xs with
  | nil => cases hx
  | cons y ys ih =>
    rw [List.forall_mem_cons] at hxs
    rcases List.mem_cons.1 hx with rfl | hx
    · exact h.append_right _
    · exact (ih hxs.2 hx).append_left hxs.1

theorem mem_lines (h : Bears x line) (hline : '\n' ∉ line) : line ∈ lines x := by
  obtain ⟨before, after, rfl, hbefore⟩ := h
  have hrest : line ∈ lines (line ++ '\n' :: after) := by
    rw [lines_append_newline, lines_of_notMem hline]
    exact List.mem_cons_self
  rw [List.append_assoc]
  rcases List.eq_nil_or_concat before with rfl | ⟨above, c, rfl⟩
  · exact hrest
  · rw [hbefore c (by simp), List.concat_eq_append, List.append_assoc, List.singleton_append,
      lines_append_newline]
    exact List.mem_append_right _ hrest

end Bears

/-! ## Lines of templates -/

/-- A piece of a line: a node that is not repeated. -/
inductive Piece where
  | text (value : String)
  | attribute (name : String)
deriving DecidableEq

/-- A piece as a node. -/
def Piece.node : Piece → Node
  | .text value => .text value
  | .attribute name => .attribute name

/-- A node as a piece. -/
def Node.piece? : Node → Option Piece
  | .text value => some (.text value)
  | .attribute name => some (.attribute name)
  | .each _ _ => none

theorem Node.eq_of_piece? {node : Node} {p : Piece} (h : node.piece? = some p) : node = p.node := by
  cases node <;> cases h <;> rfl

mutual

/-- Whether a line begins behind the text of a node. `fresh` says whether one begins in front of
it. Nothing is known of the attributes. -/
def Node.endsLine (fresh : Bool) : Node → Bool
  | .text value => (value.toList.getLast?.map (· == '\n')).getD fresh
  | .attribute _ => false
  | .each _ body => fresh && nodesEndLine true body

/-- Whether a line begins behind the text of nodes. -/
def nodesEndLine (fresh : Bool) : List Node → Bool
  | [] => fresh
  | node :: rest => nodesEndLine (node.endsLine fresh) rest

end

mutual

/-- Whether what a node repeats has a row of pieces as a line. -/
def Node.writes (pieces : List Piece) : List String → Node → Bool
  | first :: path, .each name body =>
    name == first && nodesWrite pieces path true body && nodesEndLine true body
  | _, _ => false

/-- Whether nodes have a row of pieces as a line, inside the repetitions of a path. -/
def nodesWrite (pieces : List Piece) (path : List String) (fresh : Bool) : List Node → Bool
  | [] => false
  | node :: rest =>
    path.isEmpty && (pieces.map some).isPrefixOf ((node :: rest).map Node.piece?) && fresh
      || node.writes pieces path && fresh
      || nodesWrite pieces path (node.endsLine fresh) rest

end

/-- The scopes inside the repetitions of a path, for one item of each of them. -/
inductive Leads : List Context → List String → List Context → Prop where
  | here (scopes : List Context) : Leads scopes [] scopes
  | item {scopes scopes' : List Context} {name : String} {path : List String}
    {items : List Context} {item : Context} :
    findAttribute scopes name = .ok (.list items) → item ∈ items →
      Leads (item :: scopes) path scopes' → Leads scopes (name :: path) scopes'

/-! ## What is filled in -/

theorem renderAll_cons_eq_ok {scopes : List Context} {node : Node} {rest : List Node}
    {text : String} (h : renderAll scopes (node :: rest) = .ok text) :
    ∃ first others, node.renderIn scopes = .ok first ∧ renderAll scopes rest = .ok others ∧
      text.toList = first.toList ++ others.toList := by
  rw [renderAll] at h
  obtain ⟨first, hfirst, h⟩ := bind_eq_ok_iff.1 h
  obtain ⟨others, hothers, h⟩ := bind_eq_ok_iff.1 h
  cases h
  exact ⟨first, others, hfirst, hothers, String.toList_append⟩

theorem renderAll_append_eq_ok {scopes : List Context} {nodes rest : List Node} {text : String}
    (h : renderAll scopes (nodes ++ rest) = .ok text) :
    ∃ first others, renderAll scopes nodes = .ok first ∧ renderAll scopes rest = .ok others ∧
      text.toList = first.toList ++ others.toList := by
  induction nodes generalizing text with
  | nil => exact ⟨"", text, rfl, h, rfl⟩
  | cons node nodes ih =>
    rw [List.cons_append] at h
    obtain ⟨head, tail, hhead, htail, htext⟩ := renderAll_cons_eq_ok h
    obtain ⟨first, others, hfirst, hothers, htail⟩ := ih htail
    refine ⟨head ++ first, others, ?_, hothers, by rw [htext, htail]; simp⟩
    rw [renderAll]
    exact bind_eq_ok_iff.2 ⟨head, hhead, bind_eq_ok_iff.2 ⟨first, hfirst, rfl⟩⟩

theorem renderIn_each_eq_ok {scopes : List Context} {name : String} {body : List Node}
    {text : String} (h : (Node.each name body).renderIn scopes = .ok text) :
    ∃ items parts, findAttribute scopes name = .ok (.list items) ∧
      items.mapM (fun item => renderAll (item :: scopes) body) = .ok parts ∧
      text.toList = (parts.map String.toList).flatten := by
  rw [Node.renderIn] at h
  obtain ⟨c, hc, h⟩ := bind_eq_ok_iff.1 h
  cases c with
  | list items =>
    obtain ⟨parts, hparts, h⟩ := bind_eq_ok_iff.1 h
    cases h
    exact ⟨items, parts, hc, hparts, by simp [List.flatMap]⟩
  | _ => cases h

mutual

theorem Node.endsLine_sound {fresh : Bool} {x : List Char} (hx : fresh = true → EndsLine x)
    {scopes : List Context} {text : String} : (node : Node) → node.renderIn scopes = .ok text →
    node.endsLine fresh = true → EndsLine (x ++ text.toList)
  | .text value, h, hends => by
    cases h
    rw [Node.endsLine] at hends
    refine endsLine_append (fun c hc => ?_) fun hnil => ?_
    · simpa [hc] using hends
    · exact hx (by simpa [hnil] using hends)
  | .attribute _, _, hends => nomatch hends
  | .each name body, h, hends => by
    rw [Node.endsLine, Bool.and_eq_true] at hends
    obtain ⟨items, parts, -, hparts, htext⟩ := renderIn_each_eq_ok h
    rw [htext]
    refine (hx hends.1).append (.flatten (List.forall_mem_map.2 fun part hpart => ?_))
    obtain ⟨item, -, hitem⟩ := exists_of_mapM_right hparts hpart
    exact nodesEndLine_sound (x := []) (fun _ => endsLine_nil) body hitem hends.2

/-- Nodes that pass the check lead to where a line begins. -/
theorem nodesEndLine_sound {fresh : Bool} {x : List Char} (hx : fresh = true → EndsLine x)
    {scopes : List Context} {text : String} :
    (nodes : List Node) → renderAll scopes nodes = .ok text →
    nodesEndLine fresh nodes = true → EndsLine (x ++ text.toList)
  | [], h, hends => by
    cases h
    simpa using hx hends
  | node :: rest, h, hends => by
    obtain ⟨first, others, hfirst, hothers, htext⟩ := renderAll_cons_eq_ok h
    rw [htext, ← List.append_assoc]
    exact nodesEndLine_sound (node.endsLine_sound hx hfirst) rest hothers hends

end

theorem eq_append_of_pieces {pieces : List Piece} {nodes : List Node}
    (h : pieces.map some <+: nodes.map Node.piece?) :
    ∃ rest, nodes = pieces.map Piece.node ++ rest := by
  induction pieces generalizing nodes with
  | nil => exact ⟨nodes, rfl⟩
  | cons p pieces ih =>
    cases nodes with
    | nil => cases List.prefix_nil.1 h
    | cons node nodes =>
      simp only [List.map_cons, List.cons_prefix_cons] at h
      obtain ⟨rest, rfl⟩ := ih h.2
      exact ⟨rest, by rw [Node.eq_of_piece? h.1.symm]; rfl⟩

section Writes

variable {pieces : List Piece} {line : String} {scopes' : List Context}

mutual

theorem Node.writes_sound {path : List String} {scopes : List Context}
    (hleads : Leads scopes path scopes')
    (hline : renderAll scopes' (pieces.map Piece.node) = .ok (line ++ "\n")) {text : String} :
    (node : Node) → node.renderIn scopes = .ok text → node.writes pieces path = true →
    Bears text.toList line.toList
  | .text _, _, hwrites => by cases path <;> cases hwrites
  | .attribute _, _, hwrites => by cases path <;> cases hwrites
  | .each name body, h, hwrites => by
    cases hleads with
    | here => cases hwrites
    | @item _ _ first path items item hfind hitem hleads =>
      simp only [Node.writes, Bool.and_eq_true, beq_iff_eq] at hwrites
      obtain ⟨⟨rfl, hwrites⟩, hends⟩ := hwrites
      obtain ⟨items', parts, hfind', hparts, htext⟩ := renderIn_each_eq_ok h
      cases hfind.symm.trans hfind'
      obtain ⟨part, hpart, hrender⟩ := exists_of_mapM_left hparts hitem
      rw [htext]
      refine .flatten (List.forall_mem_map.2 fun part hpart => ?_) (List.mem_map_of_mem hpart) ?_
      · obtain ⟨item, -, hitem⟩ := exists_of_mapM_right hparts hpart
        exact nodesEndLine_sound (x := []) (fun _ => endsLine_nil) body hitem hends
      · exact nodesWrite_sound hleads hline (x := []) (fun _ => endsLine_nil) body hrender hwrites

/-- The text of nodes that pass the check has the line. -/
theorem nodesWrite_sound {path : List String} {scopes : List Context}
    (hleads : Leads scopes path scopes')
    (hline : renderAll scopes' (pieces.map Piece.node) = .ok (line ++ "\n")) {fresh : Bool}
    {x : List Char} (hx : fresh = true → EndsLine x) {text : String} :
    (nodes : List Node) → renderAll scopes nodes = .ok text →
    nodesWrite pieces path fresh nodes = true → Bears (x ++ text.toList) line.toList
  | [], _, hwrites => nomatch hwrites
  | node :: rest, h, hwrites => by
    simp only [nodesWrite, Bool.or_eq_true, Bool.and_eq_true, List.isPrefixOf_iff_prefix,
      List.isEmpty_iff] at hwrites
    rcases hwrites with (⟨⟨rfl, hpieces⟩, hfresh⟩ | ⟨hwrites, hfresh⟩) | hwrites
    · -- The line is right here.
      cases hleads
      obtain ⟨rest', hrest⟩ := eq_append_of_pieces hpieces
      rw [hrest] at h
      obtain ⟨first, others, hfirst, -, htext⟩ := renderAll_append_eq_ok h
      cases hline.symm.trans hfirst
      exact ⟨x, others.toList, by simp [htext], hx hfresh⟩
    · -- It is in what the first node repeats.
      obtain ⟨first, others, hfirst, -, htext⟩ := renderAll_cons_eq_ok h
      rw [htext, ← List.append_assoc]
      exact ((node.writes_sound hleads hline hfirst hwrites).append_left (hx hfresh)).append_right _
    · -- It comes later.
      obtain ⟨first, others, hfirst, hothers, htext⟩ := renderAll_cons_eq_ok h
      rw [htext, ← List.append_assoc]
      exact nodesWrite_sound hleads hline (node.endsLine_sound hx hfirst) rest hothers hwrites

end

end Writes

/-! ## Characters -/

mutual

/-- The characters of a node in some scopes, as far as it can be filled. -/
def Node.chars (scopes : List Context) : Node → List Char
  | .text value => value.toList
  | .attribute name =>
    match findAttribute scopes name with
    | .ok (.text value) => value.toList
    | _ => []
  | .each name body =>
    match findAttribute scopes name with
    | .ok (.list items) => items.flatMap fun item => nodesChars (item :: scopes) body
    | _ => []

/-- The characters of nodes in some scopes. -/
def nodesChars (scopes : List Context) : List Node → List Char
  | [] => []
  | node :: rest => node.chars scopes ++ nodesChars scopes rest

end

mutual

theorem Node.toList_of_renderIn {scopes : List Context} {text : String} :
    (node : Node) → node.renderIn scopes = .ok text → text.toList = node.chars scopes
  | .text _, h => by
    cases h
    rfl
  | .attribute name, h => by
    rw [Node.renderIn] at h
    obtain ⟨c, hc, h⟩ := bind_eq_ok_iff.1 h
    cases c with
    | text value =>
      cases h
      simp [Node.chars, hc]
    | _ => cases h
  | .each name body, h => by
    obtain ⟨items, parts, hfind, hparts, htext⟩ := renderIn_each_eq_ok h
    simp only [Node.chars, hfind, htext, List.flatMap_def]
    rw [mapM_eq_ok_iff] at hparts
    clear hfind htext
    induction hparts with
    | nil => rfl
    | cons hpart _ ih =>
      rw [List.map_cons, List.map_cons, List.flatten_cons, List.flatten_cons, ih,
        toList_of_renderAll body hpart]

/-- A filled template has the characters that its nodes have. -/
theorem toList_of_renderAll {scopes : List Context} {text : String} :
    (nodes : List Node) → renderAll scopes nodes = .ok text → text.toList = nodesChars scopes nodes
  | [], h => by
    cases h
    rfl
  | node :: rest, h => by
    obtain ⟨first, others, hfirst, hothers, htext⟩ := renderAll_cons_eq_ok h
    rw [htext, nodesChars, node.toList_of_renderIn hfirst, toList_of_renderAll rest hothers]

end

/-! ## Lines of modules -/

namespace Generate

/-- A module has a line. -/
def Emission.HasLine (e : Emission) (line : String) : Prop :=
  line.toList ∈ lines e.content.toList

instance (e : Emission) (line : String) : Decidable (e.HasLine line) :=
  inferInstanceAs (Decidable (_ ∈ _))

theorem hasLine_of_emit {path : String} {template : Template} {context : Context} {e : Emission}
    (h : emit Template.render path template context = .ok e) (pieces : List Piece)
    {names : List String} {scopes : List Context} {line : String}
    (hwrites : nodesWrite pieces names true template = true)
    (hleads : Leads [context] names scopes)
    (hline : renderAll scopes (pieces.map Piece.node) = .ok (line ++ "\n"))
    (hnewline : '\n' ∉ line.toList) : e.HasLine line := by
  obtain ⟨content, hcontent, h⟩ := bind_eq_ok_iff.1 h
  cases h
  have hbears := nodesWrite_sound hleads hline (x := []) (fun _ => endsLine_nil) template hcontent
    hwrites
  exact hbears.mem_lines hnewline

/-- A module has the lines that the characters of its template have. -/
theorem hasLine_iff_of_emit {path : String} {template : Template} {context : Context} {e : Emission}
    (h : emit Template.render path template context = .ok e) (line : String) :
    e.HasLine line ↔ line.toList ∈ lines (nodesChars [context] template) := by
  obtain ⟨content, hcontent, h⟩ := bind_eq_ok_iff.1 h
  cases h
  rw [Emission.HasLine, toList_of_renderAll template hcontent]

end Generate

end Telemetry
