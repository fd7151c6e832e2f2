import Telemetry.Proofs.Comments
import Telemetry.Proofs.Rendering

/-!
# Templates that keep differences in comments

A template is filled twice, from contexts that differ. Whether the two texts have the same code
depends on how the contexts may differ and on where their attributes stand in the template. As in
`Telemetry.Proofs.Rendering`, templates are checked against what is known of contexts, as programs
against types.

* `Leeway`, `Leeway.Allows`: how attributes may differ.
* `Node.leads`, `nodesLead`: the check of a template, which follows where its pieces stand.
* `nodesLead_sound`: a template that passes keeps all differences in comments.
-/

namespace Telemetry

open Text

/-- How an attribute may differ between two contexts. -/
inductive Leeway where
  /-- The same text. -/
  | fixed
  /-- The same text, on one line. -/
  | word
  /-- Texts on one line. -/
  | remark
  /-- Texts of whole lines, all of them comments. -/
  | comment
  /-- Lists with as many items, which may differ in a given way. -/
  | items (item : Leeway)
  /-- Lists of any lengths. Their items have attributes of given names, texts on one line. -/
  | asides (names : List String)
  | attributes (entries : List (String × Leeway))

/-- Attributes that are the same texts. -/
def Leeway.texts (names : List String) : Leeway := .attributes (names.map fun name => (name, .fixed))

/-- Whether an item has attributes of given names that are texts on one line. -/
def Context.HasRemarks (c : Context) (names : List String) : Prop :=
  ∀ name ∈ names, ∃ t, c.get? name = some (.text t) ∧ '\n' ∉ t.toList

mutual

/-- Whether two contexts differ within a leeway. -/
def Leeway.Allows : Leeway → Context → Context → Prop
  | .fixed, .text t, .text t' => t = t'
  | .word, .text t, .text t' => t = t' ∧ '\n' ∉ t.toList
  | .remark, .text t, .text t' => '\n' ∉ t.toList ∧ '\n' ∉ t'.toList
  | .comment, .text t, .text t' =>
    Spot.start.after t.toList = some .start ∧ Spot.start.after t'.toList = some .start
  | .items item, .list cs, .list cs' => List.Forall₂ item.Allows cs cs'
  | .asides names, .list cs, .list cs' =>
    (∀ c ∈ cs, c.HasRemarks names) ∧ ∀ c ∈ cs', c.HasRemarks names
  | .attributes ls, .attributes as, .attributes as' => allowsAll ls as as'
  | _, _, _ => False

/-- Whether attributes have given names and differ within given leeways. -/
def allowsAll : List (String × Leeway) → List (String × Context) → List (String × Context) → Prop
  | [], [], [] => True
  | (name, l) :: ls, (n, c) :: as, (n', c') :: as' =>
    n = name ∧ n' = name ∧ l.Allows c c' ∧ allowsAll ls as as'
  | _, _, _ => False

end

/-- Two contexts that differ within a leeway. -/
structure Pairing where
  leeway : Leeway
  left : Context
  right : Context
  allowed : leeway.Allows left right

theorem exists_items {item : Leeway} {c c' : Context} (h : (Leeway.items item).Allows c c') :
    ∃ cs cs', c = .list cs ∧ c' = .list cs' ∧ List.Forall₂ item.Allows cs cs' := by
  cases c <;> cases c' <;> try exact h.elim
  rw [Leeway.Allows] at h
  exact ⟨_, _, rfl, rfl, h⟩

theorem exists_asides {names : List String} {c c' : Context}
    (h : (Leeway.asides names).Allows c c') :
    ∃ cs cs', c = .list cs ∧ c' = .list cs' ∧ (∀ c ∈ cs, c.HasRemarks names) ∧
      ∀ c ∈ cs', c.HasRemarks names := by
  cases c <;> cases c' <;> try exact h.elim
  exact ⟨_, _, rfl, rfl, h⟩

@[simp] theorem allows_fixed (t : String) : Leeway.fixed.Allows (.text t) (.text t) := by
  rw [Leeway.Allows]

@[simp] theorem allows_nil : (Leeway.attributes []).Allows (.attributes []) (.attributes []) := by
  rw [Leeway.Allows, allowsAll]
  trivial

@[simp] theorem allows_cons {name : String} {l : Leeway} {ls : List (String × Leeway)}
    {c c' : Context} {as as' : List (String × Context)} :
    (Leeway.attributes ((name, l) :: ls)).Allows (.attributes ((name, c) :: as))
      (.attributes ((name, c') :: as')) ↔
      l.Allows c c' ∧ (Leeway.attributes ls).Allows (.attributes as) (.attributes as') := by
  rw [Leeway.Allows, allowsAll, Leeway.Allows]
  simp only [true_and]

theorem texts_allows {names : List String} {c : Context} (h : c.Conforms (.texts names)) :
    (Leeway.texts names).Allows c c := by
  induction names generalizing c with
  | nil =>
    cases h
    exact allows_nil
  | cons name names ih =>
    cases h with
    | cons hc hcs =>
      cases hc
      exact allows_cons.2 ⟨allows_fixed _, ih hcs⟩

theorem items_allows {α : Type} {item : Leeway} {f f' : α → Context} {xs : List α}
    (h : ∀ x ∈ xs, item.Allows (f x) (f' x)) :
    (Leeway.items item).Allows (.list (xs.map f)) (.list (xs.map f')) := by
  rw [Leeway.Allows, List.forall₂_map_left_iff, List.forall₂_map_right_iff, List.forall₂_same]
  exact h

theorem items_texts_allows {names : List String} {c : Context}
    (h : c.Conforms (.list (.texts names))) : (Leeway.items (.texts names)).Allows c c := by
  cases h with
  | list hcs =>
    rw [Leeway.Allows, List.forall₂_same]
    exact fun c hc => texts_allows (hcs c hc)

/-! ## Attributes -/

/-- The leeway of an attribute. -/
def Leeway.get? (l : Leeway) (name : String) : Option Leeway :=
  match l with
  | attributes entries => entries.lookup name
  | _ => none

/-- The leeway of an attribute in the innermost of some scopes that has one. -/
def findLeeway (scopes : List Leeway) (name : String) : Option Leeway :=
  scopes.findSome? (·.get? name)

/-- Contexts have an attribute both or neither, as their leeway says. -/
theorem lookup_of_allowsAll {ls : List (String × Leeway)} {as as' : List (String × Context)}
    (h : allowsAll ls as as') (name : String) :
    (ls.lookup name = none ∧ as.lookup name = none ∧ as'.lookup name = none) ∨
      ∃ l c c', ls.lookup name = some l ∧ as.lookup name = some c ∧ as'.lookup name = some c' ∧
        l.Allows c c' := by
  induction ls generalizing as as' with
  | nil =>
    cases as <;> cases as' <;> simp [allowsAll] at h ⊢
  | cons entry ls ih =>
    obtain ⟨first, l⟩ := entry
    cases as with
    | nil => simp [allowsAll] at h
    | cons a as =>
      cases as' with
      | nil => simp [allowsAll] at h
      | cons a' as' =>
        obtain ⟨_, c⟩ := a
        obtain ⟨n, c'⟩ := a'
        rw [allowsAll] at h
        obtain ⟨rfl, rfl, hc, hrest⟩ := h
        simp only [List.lookup_cons]
        cases name == n with
        | true => exact .inr ⟨l, c, c', rfl, rfl, rfl, hc⟩
        | false => exact ih hrest

theorem Pairing.get? (p : Pairing) (name : String) :
    (p.leeway.get? name = none ∧ p.left.get? name = none ∧ p.right.get? name = none) ∨
      ∃ q : Pairing, p.leeway.get? name = some q.leeway ∧ p.left.get? name = some q.left ∧
        p.right.get? name = some q.right := by
  obtain ⟨l, c, c', h⟩ := p
  cases l with
  | attributes ls =>
    cases c <;> cases c' <;> try exact h.elim
    obtain hnone | ⟨l, c, c', hl, hc, hc', hallows⟩ := lookup_of_allowsAll h name
    · exact .inl hnone
    · exact .inr ⟨⟨l, c, c', hallows⟩, hl, hc, hc'⟩
  | _ =>
    cases c <;> cases c' <;> try exact h.elim
    exact .inl ⟨rfl, rfl, rfl⟩

theorem findAttribute_pairings {scopes : List Pairing} {name : String} {l : Leeway}
    (h : findLeeway (scopes.map Pairing.leeway) name = some l) :
    ∃ c c', findAttribute (scopes.map Pairing.left) name = .ok c ∧
      findAttribute (scopes.map Pairing.right) name = .ok c' ∧ l.Allows c c' := by
  induction scopes with
  | nil => cases h
  | cons p scopes ih =>
    rw [findLeeway, List.map_cons, List.findSome?_cons] at h
    simp only [findAttribute, List.map_cons, List.findSome?_cons] at ih ⊢
    obtain ⟨hl, hc, hc'⟩ | ⟨q, hq, hc, hc'⟩ := p.get? name
    · rw [hl] at h
      rw [hc, hc']
      exact ih h
    · rw [hq] at h
      rw [hc, hc']
      obtain rfl := Option.some.inj h
      exact ⟨q.left, q.right, rfl, rfl, q.allowed⟩

/-! ## The check -/

/-- Where a text of a template leads. -/
def Spot.afterText (spot : Spot) (x : List Char) : Spot :=
  match spot.after x with
  | some next => next
  | none => if x.getLast? = some '\n' then .start else .other

/-- Where nodes lead that are repeated for asides, if they make comments of them. -/
def commentsLead (names : List String) (spot : Spot) : List Node → Option Spot
  | [] => some spot
  | .text value :: rest => do commentsLead names (← spot.after value.toList) rest
  | .attribute name :: rest =>
    if spot = .comment ∧ name ∈ names then commentsLead names spot rest else none
  | .each _ _ :: _ => none

/-- Where an attribute leads, if it is a text that keeps differences in comments. -/
def Leeway.leads (l : Leeway) (spot : Spot) : Option Spot :=
  match l with
  | fixed => some .other
  | word => some (if spot = .comment then .comment else .other)
  | remark => if spot = .comment then some .comment else none
  | comment => if spot = .start then some .start else none
  | _ => none

mutual

/-- Where a node leads in scopes of given leeways, if it keeps differences in comments. Repeated
nodes have to lead from the start of a line to the start of a line. -/
def Node.leads (scopes : List Leeway) (spot : Spot) : Node → Option Spot
  | .text value => some (spot.afterText value.toList)
  | .attribute name => do (← findLeeway scopes name).leads spot
  | .each name body =>
    match findLeeway scopes name with
    | some (.items item) =>
      if spot = .start ∧ nodesLead (item :: scopes) .start body = some .start then some .start
      else none
    | some (.asides names) =>
      if spot = .start ∧ commentsLead names .start body = some .start then some .start else none
    | _ => none

/-- Where nodes lead in scopes of given leeways, if they keep differences in comments. -/
def nodesLead (scopes : List Leeway) (spot : Spot) : List Node → Option Spot
  | [] => some spot
  | node :: rest => do nodesLead scopes (← node.leads scopes spot) rest

end

theorem Carries.text (spot : Spot) (x : List Char) : Carries spot x x (spot.afterText x) := by
  unfold Spot.afterText
  split
  · rename_i next hnext
    exact .comments hnext hnext
  · split
    · rename_i hlast
      obtain ⟨line, rfl⟩ := List.getLast?_eq_some_iff.1 hlast
      exact .same_line spot line
    · exact .same spot x

theorem renderAll_cons {scopes : List Context} {node : Node} {nodes : List Node} {x y : String}
    (hx : node.renderIn scopes = .ok x) (hy : renderAll scopes nodes = .ok y) :
    renderAll scopes (node :: nodes) = .ok (x ++ y) := by
  rw [renderAll, hx, hy]
  rfl

theorem renderIn_attribute {scopes : List Context} {name t : String}
    (h : findAttribute scopes name = .ok (.text t)) :
    (Node.attribute name).renderIn scopes = .ok t := by
  rw [Node.renderIn, h]
  rfl

theorem renderIn_each {scopes items : List Context} {name : String} {body : List Node}
    {parts : List String} (h : findAttribute scopes name = .ok (.list items))
    (hparts : items.mapM (fun item => renderAll (item :: scopes) body) = .ok parts) :
    (Node.each name body).renderIn scopes = .ok (String.join parts) := by
  rw [Node.renderIn, h]
  change (do
    let parts ← items.mapM fun item => renderAll (item :: scopes) body
    return String.join parts) = _
  rw [hparts]
  rfl

theorem Leeway.leads_sound {l : Leeway} {c c' : Context} (hallows : l.Allows c c')
    {spot next : Spot} (h : l.leads spot = some next) :
    ∃ t t', c = .text t ∧ c' = .text t' ∧ Carries spot t.toList t'.toList next := by
  cases l with
  | items | asides | attributes => cases h
  | fixed =>
    cases c <;> cases c' <;> try exact hallows.elim
    cases hallows
    cases h
    exact ⟨_, _, rfl, rfl, .same spot _⟩
  | word =>
    cases c <;> cases c' <;> try exact hallows.elim
    obtain ⟨rfl, hline⟩ := hallows
    simp only [Leeway.leads, Option.some.injEq] at h
    split at h
    · rename_i hspot
      subst hspot h
      exact ⟨_, _, rfl, rfl, .comments (Spot.comment_after hline) (Spot.comment_after hline)⟩
    · subst h
      exact ⟨_, _, rfl, rfl, .same spot _⟩
  | remark =>
    cases c <;> cases c' <;> try exact hallows.elim
    obtain ⟨hline, hline'⟩ := hallows
    simp only [Leeway.leads] at h
    split at h
    · rename_i hspot
      subst hspot
      cases h
      exact ⟨_, _, rfl, rfl, .comments (Spot.comment_after hline) (Spot.comment_after hline')⟩
    · cases h
  | comment =>
    cases c <;> cases c' <;> try exact hallows.elim
    obtain ⟨hstart, hstart'⟩ := hallows
    simp only [Leeway.leads] at h
    split at h
    · rename_i hspot
      subst hspot
      cases h
      exact ⟨_, _, rfl, rfl, .comments hstart hstart'⟩
    · cases h

/-- Nodes that pass the check make comments of an aside. -/
theorem commentsLead_sound {item : Context} {names : List String} (hitem : item.HasRemarks names)
    (scopes : List Context) {next : Spot} :
    (nodes : List Node) → (spot : Spot) → spot ≠ .other → commentsLead names spot nodes = some next →
      ∃ x, renderAll (item :: scopes) nodes = .ok x ∧ spot.after x.toList = some next
  | [], spot, hspot, h => by
    cases h
    exact ⟨"", rfl, Spot.after_nil hspot⟩
  | .text value :: rest, spot, hspot, h => by
    obtain ⟨middle, hmiddle, hrest⟩ := Option.bind_eq_some_iff.1 h
    obtain ⟨y, hy, hnext⟩ :=
      commentsLead_sound hitem scopes rest middle (Spot.ne_other_of_after hmiddle) hrest
    refine ⟨value ++ y, renderAll_cons rfl hy, ?_⟩
    rw [String.toList_append]
    exact Spot.after_append hmiddle hnext
  | .attribute name :: rest, spot, hspot, h => by
    rw [commentsLead] at h
    split at h
    · rename_i hname
      obtain ⟨rfl, hname⟩ := hname
      obtain ⟨t, ht, hline⟩ := hitem name hname
      obtain ⟨y, hy, hnext⟩ := commentsLead_sound hitem scopes rest .comment hspot h
      have hfind : findAttribute (item :: scopes) name = .ok (.text t) := by
        simp [findAttribute, ht]
      refine ⟨t ++ y, renderAll_cons (renderIn_attribute hfind) hy, ?_⟩
      rw [String.toList_append]
      exact Spot.after_append (Spot.comment_after hline) hnext
    · cases h

/-- Asides that are made comments of are nothing but comments. -/
theorem asidesLead_sound {items : List Context} {names : List String}
    (hitems : ∀ c ∈ items, c.HasRemarks names) (scopes : List Context) {body : List Node}
    (h : commentsLead names .start body = some .start) :
    ∃ parts, items.mapM (fun item => renderAll (item :: scopes) body) = .ok parts ∧
      Spot.start.after (String.join parts).toList = some .start := by
  induction items with
  | nil => exact ⟨[], rfl, rfl⟩
  | cons item items ih =>
    obtain ⟨parts, hparts, hjoin⟩ := ih fun c hc => hitems c (List.mem_cons_of_mem _ hc)
    obtain ⟨x, hx, hstart⟩ :=
      commentsLead_sound (hitems item List.mem_cons_self) scopes body .start nofun h
    refine ⟨x :: parts, mapM_eq_ok_iff.2 (.cons hx (mapM_eq_ok_iff.1 hparts)), ?_⟩
    rw [String.join_cons, String.toList_append]
    exact Spot.after_append hstart hjoin

/-- Items that each keep differences in comments do so one after the other. -/
theorem itemsLead_sound {item : Leeway} {cs cs' : List Context}
    (hitems : List.Forall₂ item.Allows cs cs')
    (render render' : Context → Except TemplateError String)
    (h : ∀ c c', item.Allows c c' → ∃ x x', render c = .ok x ∧ render' c' = .ok x' ∧
      Carries .start x.toList x'.toList .start) :
    ∃ parts parts', cs.mapM render = .ok parts ∧ cs'.mapM render' = .ok parts' ∧
      Carries .start (String.join parts).toList (String.join parts').toList .start := by
  induction hitems with
  | nil => exact ⟨[], [], rfl, rfl, .nil .start⟩
  | cons hc _ ih =>
    obtain ⟨x, x', hx, hx', hcarries⟩ := h _ _ hc
    obtain ⟨parts, parts', hparts, hparts', hjoin⟩ := ih
    refine ⟨x :: parts, x' :: parts', mapM_eq_ok_iff.2 (.cons hx (mapM_eq_ok_iff.1 hparts)),
      mapM_eq_ok_iff.2 (.cons hx' (mapM_eq_ok_iff.1 hparts')), ?_⟩
    simp only [String.join_cons, String.toList_append]
    exact hcarries.append hjoin

mutual

theorem Node.leads_sound (scopes : List Pairing) {spot next : Spot} :
    (node : Node) → node.leads (scopes.map Pairing.leeway) spot = some next →
      ∃ x x', node.renderIn (scopes.map Pairing.left) = .ok x ∧
        node.renderIn (scopes.map Pairing.right) = .ok x' ∧ Carries spot x.toList x'.toList next
  | .text value, h => by
    cases h
    exact ⟨value, value, rfl, rfl, .text spot value.toList⟩
  | .attribute name, h => by
    obtain ⟨l, hfind, hl⟩ := Option.bind_eq_some_iff.1 h
    obtain ⟨c, c', hleft, hright, hallows⟩ := findAttribute_pairings hfind
    obtain ⟨t, t', rfl, rfl, hcarries⟩ := Leeway.leads_sound hallows hl
    exact ⟨t, t', renderIn_attribute hleft, renderIn_attribute hright, hcarries⟩
  | .each name body, h => by
    rw [Node.leads] at h
    split at h
    · rename_i item hfind
      obtain ⟨c, c', hleft, hright, hallows⟩ := findAttribute_pairings hfind
      split at h
      · rename_i hbody
        obtain ⟨rfl, hbody⟩ := hbody
        cases h
        obtain ⟨cs, cs', rfl, rfl, hitems⟩ := exists_items hallows
        obtain ⟨parts, parts', hparts, hparts', hcarries⟩ := itemsLead_sound hitems
          (fun c => renderAll (c :: scopes.map Pairing.left) body)
          (fun c => renderAll (c :: scopes.map Pairing.right) body)
          fun c c' hc => nodesLead_sound (⟨item, c, c', hc⟩ :: scopes) body hbody
        exact ⟨_, _, renderIn_each hleft hparts, renderIn_each hright hparts', hcarries⟩
      · cases h
    · rename_i names hfind
      obtain ⟨c, c', hleft, hright, hallows⟩ := findAttribute_pairings hfind
      split at h
      · rename_i hbody
        obtain ⟨rfl, hbody⟩ := hbody
        cases h
        obtain ⟨cs, cs', rfl, rfl, hremarks, hremarks'⟩ := exists_asides hallows
        obtain ⟨parts, hparts, hjoin⟩ := asidesLead_sound hremarks _ hbody
        obtain ⟨parts', hparts', hjoin'⟩ := asidesLead_sound hremarks' _ hbody
        exact ⟨_, _, renderIn_each hleft hparts, renderIn_each hright hparts',
          .comments hjoin hjoin'⟩
      · cases h
    · cases h

/-- Nodes that pass the check keep differences in comments. -/
theorem nodesLead_sound (scopes : List Pairing) {spot next : Spot} :
    (nodes : List Node) → nodesLead (scopes.map Pairing.leeway) spot nodes = some next →
      ∃ x x', renderAll (scopes.map Pairing.left) nodes = .ok x ∧
        renderAll (scopes.map Pairing.right) nodes = .ok x' ∧ Carries spot x.toList x'.toList next
  | [], h => by
    cases h
    exact ⟨"", "", rfl, rfl, .nil spot⟩
  | node :: rest, h => by
    obtain ⟨middle, hmiddle, hrest⟩ := Option.bind_eq_some_iff.1 h
    obtain ⟨x, x', hx, hx', hnode⟩ := Node.leads_sound scopes node hmiddle
    obtain ⟨y, y', hy, hy', hnodes⟩ := nodesLead_sound scopes rest hrest
    refine ⟨x ++ y, x' ++ y', renderAll_cons hx hy, renderAll_cons hx' hy', ?_⟩
    rw [String.toList_append, String.toList_append]
    exact hnode.append hnodes

end

end Telemetry
