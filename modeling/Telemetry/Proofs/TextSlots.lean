import Telemetry.Proofs.Utf8

/-!
# Texts that do not fit their slot

A slot holds the first bytes of a text. The cut may fall inside a character, and what is left of
that character is read as one ill-formed part, wherever the cut is. So a text comes back from its
slot up to its first zero character and up to the last character that fits, with one U+FFFD for a
character that was cut.

* `Utf8.next_take`, `Utf8.pieces_take_encodeChar`: a character that was cut.
* `Utf8.fitting`: the characters that fit into a number of bytes. `Utf8.pieces_take` reads the first
  bytes of a text as these characters and what was cut.
* `Utf8.LongestFit`: what `Utf8.fitting` gives, said without the way to find it.
* `beforeZero`: the part of a text that a slot can show.
* `fillText_eq_textSlot`: what a slot held before does not matter.
* `getText_putText`: what is read from the slot of a text.
-/

namespace Telemetry

namespace Utf8

/-! ## Characters that were cut -/

section Cut

variable {a b b' : UInt8} {rest : List UInt8} {c : Char} {n : Nat}

theorem next_nil (ha : ¬ a < 0x80) : next a [] = (none, 0) := by
  unfold next
  grind

theorem next_single (h : next a (b :: rest) = (some c, n)) (hn : 1 < n) :
    next a [b] = (none, 1) := by
  unfold next at h ⊢
  grind

theorem next_pair (h : next a (b :: b' :: rest) = (some c, n)) (hn : 2 < n) :
    next a [b, b'] = (none, 2) := by
  unfold next at h ⊢
  grind

theorem next_snd_le (a : UInt8) (rest : List UInt8) : (next a rest).2 ≤ 3 := by
  unfold next
  grind

end Cut

/-- The first bytes of a character belong to one ill-formed part: they pass the checks that the
whole character passes, and then the next byte is missing. -/
theorem next_take {a : UInt8} {tail : List UInt8} {c : Char}
    (h : next a tail = (some c, tail.length)) {k : Nat} (hk : k < tail.length) :
    next a (tail.take k) = (none, k) := by
  have hlen : tail.length ≤ 3 := by simpa [h] using next_snd_le a tail
  obtain rfl | rfl | rfl : k = 0 ∨ k = 1 ∨ k = 2 := by omega
  · apply next_nil
    intro ha
    unfold next at h
    rw [if_pos ha, Prod.mk.injEq] at h
    omega
  · cases tail with
    | nil => simp at hk
    | cons b rest => simpa using next_single h hk
  · rcases tail with _ | ⟨b, _ | ⟨b', rest⟩⟩
    · simp at hk
    · simp at hk
    · simpa using next_pair h hk

/-- A character that was cut is one ill-formed part, wherever the cut is. -/
theorem pieces_take_encodeChar {c : Char} {n : Nat} (hpos : 0 < n)
    (hn : n < (String.utf8EncodeChar c).length) :
    pieces ((String.utf8EncodeChar c).take n) = [none] := by
  obtain ⟨a, tail, hbytes, hnext⟩ := next_encodeChar c []
  rw [List.append_nil] at hnext
  rw [hbytes, List.length_cons] at hn
  obtain ⟨k, rfl⟩ : ∃ k, n = k + 1 := ⟨n - 1, by omega⟩
  have hend : (tail.take k).drop k = [] := by simp
  rw [hbytes, List.take_succ_cons, pieces, next_take hnext (by omega), hend, pieces]

/-! ## Characters that fit -/

/-- The bytes of characters. -/
def charBytes (cs : List Char) : List UInt8 := cs.flatMap String.utf8EncodeChar

theorem charBytes_cons (c : Char) (cs : List Char) :
    charBytes (c :: cs) = String.utf8EncodeChar c ++ charBytes cs := rfl

theorem encode_ofList (cs : List Char) : encode (String.ofList cs) = charBytes cs := by
  rw [encode, String.toList_ofList, charBytes]

/-- The first characters that fit into `n` bytes, up to one that does not. -/
def fitting (n : Nat) : List Char → List Char
  | [] => []
  | c :: cs =>
    let width := (String.utf8EncodeChar c).length
    if width ≤ n then c :: fitting (n - width) cs else []

theorem fitting_of_le {c : Char} {n : Nat} (h : (String.utf8EncodeChar c).length ≤ n)
    (cs : List Char) :
    fitting n (c :: cs) = c :: fitting (n - (String.utf8EncodeChar c).length) cs :=
  if_pos h

theorem fitting_of_lt {c : Char} {n : Nat} (h : n < (String.utf8EncodeChar c).length)
    (cs : List Char) : fitting n (c :: cs) = [] :=
  if_neg (Nat.not_le.2 h)

/-- The first bytes of a text are read as the characters that fit, and as one ill-formed part more
if there are bytes behind these. -/
theorem pieces_take (n : Nat) (cs : List Char) :
    pieces ((charBytes cs).take n) = (fitting n cs).map some ++
      if (charBytes (fitting n cs)).length < min n (charBytes cs).length then [none] else [] := by
  induction cs generalizing n with
  | nil => simp [charBytes, fitting, pieces]
  | cons c cs ih =>
    rw [charBytes_cons]
    by_cases hfit : (String.utf8EncodeChar c).length ≤ n
    · rw [fitting_of_le hfit, charBytes_cons, List.take_append, List.take_of_length_le hfit,
        pieces_encodeChar, ih, List.map_cons, List.cons_append, List.length_append,
        List.length_append]
      congr 2
      -- The width of the character is taken from both sides.
      refine ite_congr (propext ?_) (fun _ => rfl) (fun _ => rfl)
      omega
    · have hcut : n < (String.utf8EncodeChar c).length := Nat.lt_of_not_le hfit
      rw [fitting_of_lt hcut, List.take_append_of_le_length (Nat.le_of_lt hcut)]
      by_cases hzero : n = 0
      · subst hzero
        simp [pieces]
      · have hpos : 0 < n := Nat.pos_of_ne_zero hzero
        rw [pieces_take_encodeChar hpos hcut, if_pos]
        · rfl
        · simp only [charBytes, List.flatMap_nil, List.length_nil, List.length_append]
          omega

theorem length_charBytes_fitting (n : Nat) (cs : List Char) :
    (charBytes (fitting n cs)).length ≤ n := by
  induction cs generalizing n with
  | nil => exact Nat.zero_le n
  | cons c cs ih =>
    by_cases hfit : (String.utf8EncodeChar c).length ≤ n
    · have hrest := ih (n - (String.utf8EncodeChar c).length)
      rw [fitting_of_le hfit, charBytes_cons, List.length_append]
      omega
    · rw [fitting_of_lt (Nat.lt_of_not_le hfit)]
      exact Nat.zero_le n

theorem fitting_begins (n : Nat) (cs : List Char) : fitting n cs <+: cs := by
  induction cs generalizing n with
  | nil => exact List.nil_prefix
  | cons c cs ih =>
    by_cases hfit : (String.utf8EncodeChar c).length ≤ n
    · rw [fitting_of_le hfit, List.cons_prefix_cons]
      exact ⟨rfl, ih _⟩
    · rw [fitting_of_lt (Nat.lt_of_not_le hfit)]
      exact List.nil_prefix

theorem begins_fitting {n : Nat} {cs start : List Char} (hstart : start <+: cs)
    (hfits : (charBytes start).length ≤ n) : start <+: fitting n cs := by
  induction cs generalizing n start with
  | nil => exact hstart
  | cons c cs ih =>
    cases start with
    | nil => exact List.nil_prefix
    | cons c' start =>
      obtain ⟨rfl, hrest⟩ := List.cons_prefix_cons.1 hstart
      rw [charBytes_cons, List.length_append] at hfits
      rw [fitting_of_le (by omega), List.cons_prefix_cons]
      exact ⟨rfl, ih hrest (by omega)⟩

/-- The longest beginning of a text whose characters all fit into `n` bytes. -/
structure LongestFit (n : Nat) (text start : String) : Prop where
  begins : start.toList <+: text.toList
  fits : (encode start).length ≤ n
  longest : ∀ other : String, other.toList <+: text.toList → (encode other).length ≤ n →
    other.toList <+: start.toList

theorem LongestFit.unique {n : Nat} {text start start' : String} (h : LongestFit n text start)
    (h' : LongestFit n text start') : start = start' := by
  have hle := h'.longest start h.begins h.fits
  have hge := h.longest start' h'.begins h'.fits
  exact String.toList_inj.1 (hle.eq_of_length_le hge.length_le)

theorem longestFit_fitting (n : Nat) (text : String) :
    LongestFit n text (String.ofList (fitting n text.toList)) where
  begins := by
    rw [String.toList_ofList]
    exact fitting_begins n text.toList
  fits := by
    rw [encode_ofList]
    exact length_charBytes_fitting n text.toList
  longest := by
    intro other hbegins hfits
    rw [String.toList_ofList]
    exact begins_fitting hbegins hfits

/-- The first bytes of a text are read as the longest part of it that fits, with U+FFFD behind it if
this leaves bytes of a character that was cut. -/
theorem decodeLossy_take {n : Nat} {text start : String} (h : LongestFit n text start) :
    decodeLossy ((encode text).take n) =
      if (encode text).length ≤ n then text
      else if (encode start).length < n then start.push (Char.ofNat 0xFFFD)
      else start := by
  by_cases hfits : (encode text).length ≤ n
  · rw [if_pos hfits, List.take_of_length_le hfits, decodeLossy_encode]
  · obtain rfl := h.unique (longestFit_fitting n text)
    have hmin : min n (charBytes text.toList).length = n :=
      Nat.min_eq_left (Nat.le_of_not_le hfits)
    have hpieces := pieces_take n text.toList
    rw [hmin] at hpieces
    rw [if_neg hfits, encode_ofList]
    apply String.toList_inj.1
    rw [decodeLossy, encode, ← charBytes, hpieces]
    split <;> simp [Function.comp_def]

end Utf8

/-! ## Slots -/

/-- A text up to its first zero character. -/
def beforeZero (s : String) : String := String.ofList (s.toList.takeWhile (· ≠ Char.ofNat 0))

/-- The first zero byte of a text is that of its first zero character. -/
theorem takeWhile_encode (s : String) :
    (Utf8.encode s).takeWhile (· ≠ 0) = Utf8.encode (beforeZero s) := by
  have hsplit : Utf8.encode s = Utf8.encode (beforeZero s) ++
      Utf8.charBytes (s.toList.dropWhile (· ≠ Char.ofNat 0)) := by
    rw [beforeZero, Utf8.encode_ofList, Utf8.charBytes, Utf8.charBytes, ← List.flatMap_append,
      List.takeWhile_append_dropWhile, Utf8.encode]
  have hzero : Char.ofNat 0 ∉ (beforeZero s).toList := by
    intro hmem
    rw [beforeZero, String.toList_ofList] at hmem
    have hne := List.all_eq_true.1 List.all_takeWhile _ hmem
    simp at hne
  have hbytes := Utf8.zero_notMem_encode hzero
  rw [hsplit, List.takeWhile_append_of_pos]
  · cases hrest : s.toList.dropWhile (· ≠ Char.ofNat 0) with
    | nil => simp [Utf8.charBytes]
    | cons c cs =>
      have hc : c = Char.ofNat 0 := by
        have hhead := List.head?_dropWhile_not (· ≠ Char.ofNat 0) s.toList
        rw [hrest] at hhead
        simpa using hhead
      have hbyte : String.utf8EncodeChar (Char.ofNat 0) = [0] := by decide
      rw [hc, Utf8.charBytes_cons, hbyte]
      simp
  · intro b hb
    exact decide_eq_true fun h => hbytes (h ▸ hb)

theorem takeWhile_append_zeros (bytes : List UInt8) (n : Nat) :
    (bytes ++ List.replicate n 0).takeWhile (· ≠ 0) = bytes.takeWhile (· ≠ 0) := by
  induction bytes with
  | nil => simp
  | cons b bytes ih =>
    by_cases hb : b = 0
    · simp [hb]
    · simpa [hb] using ih

theorem slotText_textSlot_eq (n : Nat) (s : String) :
    slotText (textSlot n s) = Utf8.decodeLossy ((Utf8.encode (beforeZero s)).take n) := by
  rw [slotText, textSlot, takeWhile_append_zeros, ← List.take_takeWhile, takeWhile_encode]

/-- What a slot held before does not matter. -/
theorem fillText_eq_textSlot (slot : List UInt8) (s : String) :
    fillText slot s = textSlot slot.length s := by
  unfold fillText textSlot
  simp only [List.map_const', List.length_drop]
  by_cases hfit : (Utf8.encode s).length ≤ slot.length
  · rw [Nat.min_eq_left hfit, List.take_of_length_le (Nat.le_refl _), List.take_of_length_le hfit]
  · have hle : slot.length ≤ (Utf8.encode s).length := Nat.le_of_not_le hfit
    rw [Nat.min_eq_right hle, Nat.sub_self, Nat.sub_eq_zero_of_le hle]

theorem getText_at_slot (p : Payload) (s : String) (n : Nat) :
    ({ p.putText s n with position := p.bytes.length } : Payload).getText n =
      .ok (slotText (textSlot n s),
        { p.putText s n with position := p.bytes.length + n }) := by
  have hpeek : ({ p.putText s n with position := p.bytes.length } : Payload).peek n =
      textSlot n s := by
    simp [Payload.peek, Payload.putText, Payload.putBytes, List.take_of_length_le]
  have hlen : p.bytes.length + n ≤ (p.putText s n).bytes.length := by
    simp [Payload.putText, Payload.putBytes]
  rw [Payload.getText, Payload.getBytes, if_pos (.inl hlen), hpeek]
  rfl

/-- **What is read from the slot of a text.** Let `t` be a text `s` up to its first zero character.
If `t` fits into `n` bytes, it is read from the slot that `s` was put into. Otherwise the longest
beginning of `t` is read whose characters all fit, with U+FFFD behind it exactly if that leaves
bytes of the slot. It makes no difference whether the text was put behind a payload or written over
a slot, and in a slot nothing is left of what it held before. -/
theorem getText_putText (s : String) (n : Nat) :
    ∃ start, Utf8.LongestFit n (beforeZero s) start ∧
      let read :=
        if (Utf8.encode (beforeZero s)).length ≤ n then beforeZero s
        else if (Utf8.encode start).length < n then start.push (Char.ofNat 0xFFFD)
        else start
      (∀ p : Payload,
        ({ p.putText s n with position := p.bytes.length } : Payload).getText n =
          .ok (read, { p.putText s n with position := p.bytes.length + n })) ∧
      ∀ slot : List UInt8, slot.length = n →
        fillText slot s = textSlot n s ∧ slotText (fillText slot s) = read := by
  have hstart := Utf8.longestFit_fitting n (beforeZero s)
  have hread : slotText (textSlot n s) = _ :=
    (slotText_textSlot_eq n s).trans (Utf8.decodeLossy_take hstart)
  refine ⟨_, hstart, fun p => ?_, fun slot hslot => ?_⟩
  · rw [getText_at_slot, hread]
  · have hfill : fillText slot s = textSlot n s := by rw [fillText_eq_textSlot, hslot]
    exact ⟨hfill, hfill ▸ hread⟩

/-- The last byte of the slot takes the first half of a character. -/
theorem getText_putText_cut :
    let slot : List UInt8 := [0xFF, 0xFF, 0xFF]
    slot.length = 3 ∧ fillText slot "grö\x00" = [0x67, 0x72, 0xC3] ∧
      slotText (fillText slot "grö\x00") = "gr\uFFFD" := by
  intro slot
  obtain ⟨start, hstart, -, hslot⟩ := getText_putText "grö\x00" 3
  obtain rfl := hstart.unique (Utf8.longestFit_fitting _ _)
  obtain ⟨hfill, hread⟩ := hslot slot rfl
  refine ⟨rfl, hfill.trans ?_, hread.trans ?_⟩
  · decide +kernel
  · decide +kernel

end Telemetry
