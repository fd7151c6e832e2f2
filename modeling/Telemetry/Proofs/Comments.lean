import Mathlib.Data.List.Basic
import Telemetry.Text.Blank

/-!
# Comments in generated text

A line that begins with two slashes is a comment. Two texts have the same code if they agree once
such lines are left out. Generated text comes in pieces, and what a piece adds to the code depends
on where it stands: what is put behind the slashes of a comment adds nothing, as long as it stays on
the line.

* `Text.code`: the lines of a text that are no comments.
* `Spot`: where a piece stands in its line; `Spot.after` follows pieces that are comments.
* `Spot.Same`: texts that add the same code at a spot.
* `Carries`: pieces behind which texts with the same code still have the same code.
-/

namespace Telemetry.Text

/-- The lines of a text. -/
def lines (cs : List Char) : List (List Char) := cs.splitOn '\n'

/-- Whether a line is a comment: its first characters that are not blank are two slashes. -/
def isComment (line : List Char) : Bool := ['/', '/'].isPrefixOf (trimStart line)

/-- The lines of a text that are no comments. -/
def code (cs : List Char) : List (List Char) := (lines cs).filter (!isComment ·)

/-! ## Lines -/

theorem lines_ne_nil (x : List Char) : lines x ≠ [] := List.splitOn_ne_nil '\n' x

theorem lines_append_newline (x r : List Char) : lines (x ++ '\n' :: r) = lines x ++ lines r :=
  List.splitOn_append_cons_self ..

theorem lines_of_notMem {x : List Char} (h : '\n' ∉ x) : lines x = [x] := List.splitOn_eq_singleton h

theorem lines_append {x : List Char} (h : '\n' ∉ x) (r : List Char) :
    lines (x ++ r) = (lines r).modifyHead (x ++ ·) := by
  by_cases hr : '\n' ∈ r
  · obtain ⟨a, b, rfl, ha⟩ := List.eq_append_cons_of_mem hr
    have hxa : '\n' ∉ x ++ a := by simp [h, ha]
    rw [← List.append_assoc, lines_append_newline, lines_append_newline, lines_of_notMem hxa,
      lines_of_notMem ha]
    rfl
  · have hxr : '\n' ∉ x ++ r := by simp [h, hr]
    rw [lines_of_notMem hxr, lines_of_notMem hr]
    rfl

theorem code_append_newline (x r : List Char) : code (x ++ '\n' :: r) = code x ++ code r := by
  rw [code, lines_append_newline, List.filter_append]
  rfl

theorem isComment_append {x : List Char} (h : isComment x = true) (y : List Char) :
    isComment (x ++ y) = true := by
  unfold isComment trimStart at h ⊢
  rw [List.isPrefixOf_iff_prefix] at h ⊢
  rw [List.dropWhile_append]
  split
  · rename_i hempty
    rw [List.isEmpty_iff.1 hempty] at h
    cases List.prefix_nil.1 h
  · exact h.trans (List.prefix_append _ _)

/-- Of a line that begins as a comment only the lines behind it count. -/
theorem code_append_of_isComment {x : List Char} (h : isComment x = true) (hx : '\n' ∉ x)
    (r : List Char) : code (x ++ r) = (lines r).tail.filter (!isComment ·) := by
  rw [code, lines_append hx]
  cases hr : lines r with
  | nil => exact absurd hr (lines_ne_nil r)
  | cons first rest => simp [isComment_append h]

/-! ## Text on one line -/

theorem notMem_stretches {c : Char} (hc : isBlank c = true) {cs w : List Char}
    (hw : w ∈ stretches cs) : c ∉ w := by
  induction cs generalizing w with
  | nil =>
    rw [List.mem_singleton.1 hw]
    exact List.not_mem_nil
  | cons x cs ih =>
    rw [stretches] at hw
    split at hw
    · rcases List.mem_cons.1 hw with rfl | hw
      · exact List.not_mem_nil
      · exact ih hw
    · rename_i hx
      have hne : c ≠ x := fun h => hx (h ▸ hc)
      cases hs : stretches cs with
      | nil =>
        rw [hs, consWord] at hw
        simpa [List.mem_singleton.1 hw] using hne
      | cons first rest =>
        rw [hs, consWord] at hw
        rcases List.mem_cons.1 hw with rfl | hw
        · exact List.not_mem_cons_of_ne_of_not_mem hne (ih (hs ▸ List.mem_cons_self))
        · exact ih (hs ▸ List.mem_cons_of_mem _ hw)

theorem mem_or_eq_of_mem_intersperse {α : Type} {sep x : α} {xs : List α}
    (h : x ∈ xs.intersperse sep) : x ∈ xs ∨ x = sep := by
  induction xs with
  | nil => cases h
  | cons y ys ih =>
    cases ys with
    | nil => exact .inl h
    | cons z zs =>
      rw [List.intersperse_cons_cons] at h
      rcases List.mem_cons.1 h with rfl | h
      · exact .inl List.mem_cons_self
      · rcases List.mem_cons.1 h with rfl | h
        · exact .inr rfl
        · exact (ih h).imp (List.mem_cons_of_mem y) id

/-- A text on one line has no line break in it. -/
theorem newline_notMem_oneLine (s : String) : '\n' ∉ (oneLine s).toList := by
  rw [oneLine, String.toList_ofList, List.mem_flatten]
  rintro ⟨w, hw, hmem⟩
  rcases mem_or_eq_of_mem_intersperse hw with hw | rfl
  · exact notMem_stretches (by decide) (List.mem_of_mem_filter hw) hmem
  · exact absurd hmem (by decide)

end Telemetry.Text

namespace Telemetry

open Text

/-! ## Where pieces stand -/

/-- Where a piece of text stands. -/
inductive Spot where
  /-- At the start of a line. -/
  | start
  /-- In a comment. -/
  | comment
  /-- Behind some other text. -/
  | other
deriving DecidableEq

/-- Where lines lead that are comments, if they are. -/
def spotBehind : List (List Char) → Option Spot
  | [] => none
  | [last] => if last = [] then some .start else if isComment last then some .comment else none
  | line :: rest => if isComment line then spotBehind rest else none

theorem spotBehind_cons (line : List Char) {rest : List (List Char)} (h : rest ≠ []) :
    spotBehind (line :: rest) = if isComment line then spotBehind rest else none := by
  cases rest with
  | nil => exact absurd rfl h
  | cons => rfl

namespace Spot

/-- A text that leads to a spot from the start of a line, without any code in it. -/
def opening : Spot → List Char
  | comment => ['/', '/']
  | _ => []

/-- Where a text leads from a spot, if it adds comments only. -/
def after (spot : Spot) (x : List Char) : Option Spot :=
  if spot = other then none else spotBehind (lines (spot.opening ++ x))

/-- Texts that add the same code to a text that ends at a spot. -/
def Same (spot : Spot) (r r' : List Char) : Prop :=
  match spot with
  | other => ∀ p, code (p ++ r) = code (p ++ r')
  | known => code (known.opening ++ r) = code (known.opening ++ r')

theorem same_iff {spot : Spot} (h : spot ≠ other) {r r' : List Char} :
    spot.Same r r' ↔ code (spot.opening ++ r) = code (spot.opening ++ r') := by
  cases spot with
  | other => exact absurd rfl h
  | _ => rfl

/-- What has the same code behind every text has it at every spot. -/
theorem Same.at (spot : Spot) {r r' : List Char} (h : ∀ p, code (p ++ r) = code (p ++ r')) :
    spot.Same r r' := by
  cases spot with
  | other => exact h
  | _ => exact h _

end Spot

/-- What follows a comment on its line does not matter for where it leads. -/
theorem spotBehind_append_of_isComment {x x' : List Char} (h : isComment x = true)
    (h' : isComment x' = true) (hx : '\n' ∉ x) (hx' : '\n' ∉ x') (y : List Char) :
    spotBehind (lines (x ++ y)) = spotBehind (lines (x' ++ y)) := by
  have hne {x : List Char} (h : isComment x = true) : x ≠ [] := by
    rintro rfl
    cases h
  rw [lines_append hx, lines_append hx']
  cases lines y with
  | nil => rfl
  | cons line rest =>
    cases rest with
    | nil => simp [spotBehind, hne h, hne h', isComment_append h, isComment_append h']
    | cons => simp [spotBehind, isComment_append h, isComment_append h']

/-- Comments in front of a text can be left out, down to the spot that they lead to. -/
theorem append_of_spotBehind {x : List Char} {next : Spot} (h : spotBehind (lines x) = some next) :
    next ≠ .other ∧ ∀ r, code (x ++ r) = code (next.opening ++ r) ∧
      spotBehind (lines (x ++ r)) = spotBehind (lines (next.opening ++ r)) := by
  -- By induction on the lines, of which the first ends at the first line break.
  generalize hls : lines x = ls at h
  induction ls generalizing x with
  | nil => cases h
  | cons line rest ih =>
    by_cases hx : '\n' ∈ x
    · obtain ⟨a, b, rfl, ha⟩ := List.eq_append_cons_of_mem hx
      rw [lines_append_newline, lines_of_notMem ha, List.singleton_append] at hls
      obtain ⟨rfl, rfl⟩ := List.cons.inj hls
      rw [spotBehind_cons a (lines_ne_nil b)] at h
      split at h
      · rename_i hcomment
        obtain ⟨hnext, happend⟩ := ih rfl h
        have hcode : code a = [] := by simp [code, lines_of_notMem ha, hcomment]
        refine ⟨hnext, fun r => ?_⟩
        rw [List.append_assoc, List.cons_append, code_append_newline, hcode, List.nil_append,
          lines_append_newline, lines_of_notMem ha, List.singleton_append,
          spotBehind_cons a (lines_ne_nil _), if_pos hcomment]
        exact happend r
      · cases h
    · rw [lines_of_notMem hx] at hls
      obtain ⟨rfl, rfl⟩ := List.cons.inj hls
      rw [spotBehind] at h
      split at h
      · cases h
        subst x
        exact ⟨nofun, fun r => ⟨rfl, rfl⟩⟩
      · split at h
        · rename_i hcomment
          cases h
          refine ⟨nofun, fun r => ⟨?_, ?_⟩⟩
          · rw [code_append_of_isComment hcomment hx]
            exact (code_append_of_isComment (by decide) (by decide) r).symm
          · exact spotBehind_append_of_isComment hcomment (by decide) hx (by decide) r
        · cases h

namespace Spot

theorem after_nil {spot : Spot} (h : spot ≠ other) : spot.after [] = some spot := by
  cases spot with
  | other => exact absurd rfl h
  | _ => rfl

theorem ne_other_of_after {spot next : Spot} {x : List Char} (h : spot.after x = some next) :
    next ≠ other := by
  unfold after at h
  split at h
  · cases h
  · exact (append_of_spotBehind h).1

theorem comment_after {x : List Char} (h : '\n' ∉ x) : comment.after x = some comment := by
  have hx : '\n' ∉ comment.opening ++ x := by simp [opening, h]
  rw [after, if_neg nofun, lines_of_notMem hx, spotBehind, if_neg nofun,
    if_pos (isComment_append (by decide) x)]

theorem after_append {spot middle next : Spot} {x y : List Char} (h : spot.after x = some middle)
    (h' : middle.after y = some next) : spot.after (x ++ y) = some next := by
  unfold after at h h' ⊢
  split at h
  · cases h
  · rename_i hspot
    obtain ⟨hmiddle, happend⟩ := append_of_spotBehind h
    rw [if_neg hmiddle] at h'
    rw [if_neg hspot, ← List.append_assoc, (happend y).2, h']

end Spot

/-! ## Pieces -/

/-- Texts with the same code behind two pieces have the same code together with them. -/
def Carries (spot : Spot) (x x' : List Char) (next : Spot) : Prop :=
  ∀ r r', next.Same r r' → spot.Same (x ++ r) (x' ++ r')

namespace Carries

variable {spot next last : Spot} {x x' y y' : List Char}

theorem nil (spot : Spot) : Carries spot [] [] spot := fun _ _ h => h

theorem append (h : Carries spot x x' next) (h' : Carries next y y' last) :
    Carries spot (x ++ y) (x' ++ y') last := by
  intro r r' hr
  rw [List.append_assoc, List.append_assoc]
  exact h _ _ (h' _ _ hr)

/-- Comments carry, whatever they say. -/
theorem comments (h : spot.after x = some next) (h' : spot.after x' = some next) :
    Carries spot x x' next := by
  intro r r' hr
  unfold Spot.after at h h'
  split at h
  · cases h
  · rename_i hspot
    rw [if_neg hspot] at h'
    obtain ⟨hnext, happend⟩ := append_of_spotBehind h
    have happend' := (append_of_spotBehind h').2
    rw [Spot.same_iff hspot, ← List.append_assoc, ← List.append_assoc, (happend r).1,
      (happend' r').1]
    exact (Spot.same_iff hnext).1 hr

/-- What is the same on both sides carries, if texts behind it do from anywhere. -/
theorem same (spot : Spot) (x : List Char) : Carries spot x x .other := by
  intro r r' hr
  refine .at spot fun p => ?_
  rw [← List.append_assoc, ← List.append_assoc]
  exact hr (p ++ x)

/-- What is the same on both sides up to the end of a line carries. -/
theorem same_line (spot : Spot) (x : List Char) :
    Carries spot (x ++ ['\n']) (x ++ ['\n']) .start := by
  intro r r' hr
  refine .at spot fun p => ?_
  have hcode (r : List Char) : code (p ++ (x ++ ['\n'] ++ r)) = code (p ++ x) ++ code r := by
    rw [← code_append_newline]
    simp
  have hr : code r = code r' := hr
  rw [hcode, hcode, hr]

theorem code (h : Carries .start x x' next) : code x = code x' := by
  have hnext : next.Same [] [] := by cases next <;> simp [Spot.Same]
  have hcode : Text.code (x ++ []) = Text.code (x' ++ []) := h [] [] hnext
  rw [List.append_nil, List.append_nil] at hcode
  exact hcode

end Carries

end Telemetry
