import CallTrace.Json.Printer
import CallTrace.Json.Reader
import Mathlib

/-!
Reading printed text.

The printer appends to the text so far, and the reader goes on from the state in which that text has
left it (`Reaches`). Writing a value takes the reader from a state that waits for a value to one in which
the value has been read (`Settles`); a number is only known to be over at the character after it.
What is read is given by the reading (`Reading.value`). Floats are left out, and integers have to fit 64
bits, with or without a sign (`Exact`).
-/
namespace CallTrace.Json

/-- Numbers in the value are integers that fit 64 bits, with or without a sign. -/
inductive Exact : Json → Prop
  | null : Exact .null
  | bool (b : Bool) : Exact (.bool b)
  | int {n : Int} (low : -2 ^ 63 ≤ n) (high : n < 2 ^ 64) : Exact (.int n)
  | string (s : String) : Exact (.string s)
  | array {items : List Json} (all : ∀ v ∈ items, Exact v) : Exact (.array items)
  | object {members : List (String × Json)} (all : ∀ m ∈ members, Exact m.2) :
      Exact (.object members)

variable {α : Type}

namespace Reading

mutual

/-- What a value is read as. -/
def value (r : Reading α) : Json → α
  | .array items => r.array (valueList r items)
  | .object members => r.object (valueMembers r members)
  | .null => r.scalar .null
  | .bool b => r.scalar (.bool b)
  | .int n => r.scalar (.int n)
  | .float negative x => r.scalar (.float negative x)
  | .string s => r.scalar (.string s)

def valueList (r : Reading α) : List Json → List α
  | [] => []
  | v :: rest => value r v :: valueList r rest

def valueMembers (r : Reading α) : List (String × Json) → List (Option String × α)
  | [] => []
  | (key, v) :: rest => (some key, value r v) :: valueMembers r rest

end

theorem value_array (r : Reading α) (items : List Json) :
    r.value (.array items) = r.array (items.map r.value) := by
  have hlist : ∀ vs : List Json, valueList r vs = vs.map r.value := by
    intro vs
    induction vs with
    | nil => rfl
    | cons v vs ih => rw [valueList, ih, List.map_cons]
  rw [value, hlist]

theorem value_object (r : Reading α) (members : List (String × Json)) :
    r.value (.object members) = r.object (members.map fun m => (some m.1, r.value m.2)) := by
  have hlist : ∀ ms : List (String × Json),
      valueMembers r ms = ms.map fun m => (some m.1, r.value m.2) := by
    intro ms
    induction ms with
    | nil => rfl
    | cons m ms ih => rw [valueMembers, ih, List.map_cons]
  rw [value, hlist]

end Reading

/-! ### The reader in step with the text -/

theorem run_append (r : Reading α) (s : State α) (xs ys : List Char) :
    run r s (xs ++ ys) = (run r s xs).bind fun s => run r s ys := by
  induction xs generalizing s with
  | nil => rfl
  | cons c xs ih =>
    simp only [List.cons_append, run]
    cases step r s c with
    | none => rfl
    | some s => exact ih s

/-- The reader is in the state after the text. -/
def Reaches (r : Reading α) (text : String) (s : State α) : Prop :=
  run r .start text.toList = some s

variable {r : Reading α} {out : String} {s s' : State α} {frames : List (Frame α)}

theorem Reaches.append (h : Reaches r out s) {text : String} {cs : List Char}
    (hcs : run r s cs = some s') (htext : text.toList = cs) : Reaches r (out ++ text) s' := by
  have hrun : run r .start out.toList = some s := h
  rw [Reaches, String.toList_append, run_append, hrun, htext]
  exact hcs

theorem Reaches.push (h : Reaches r out s) {c : Char} (hc : step r s c = some s') :
    Reaches r (out.push c) s' := by
  have hrun : run r .start out.toList = some s := h
  rw [Reaches, String.toList_push, run_append, hrun]
  simp [run, hc]

/-- The reader waits for a value. -/
structure State.Awaits (s : State α) : Prop where
  mode : s.mode = .value ∨ s.mode = .item
  frames : ∀ members rest, s.frames ≠ .object members :: rest

theorem State.awaits_start : (State.start : State α).Awaits :=
  ⟨.inl rfl, fun _ _ h => nomatch h⟩

theorem State.Awaits.step_eq (h : s.Awaits) {c : Char} (hblank : isBlank c = false)
    (hclose : c ≠ ']') : step r s c = openValue c s.frames := by
  rcases h.mode with hmode | hmode
  · simp [step, hmode, hblank]
  · simp [step, hmode, hblank, hclose]

/-- The reader has just read the value: it is complete, or a number that may end here. -/
inductive Settles (r : Reading α) (v : α) (frames : List (Frame α)) : State α → Prop
  | complete : Settles r v frames (.complete v frames)
  | number {n : Numeral} (ends : n.isComplete) (value : r.scalar? n.value? = some v) :
      Settles r v frames ⟨.number n, frames⟩

theorem Numeral.extend?_eq_none {n : Numeral} (ends : n.isComplete) {c : Char}
    (hdigit : Numeral.digit? c = none) (hpoint : c ≠ '.') (hmark : Numeral.isMark c = false) :
    n.extend? c = none := by
  have hleave : n.leaveWhole? c = none := by simp [Numeral.leaveWhole?, hpoint, hmark]
  have hleave' : n.leaveFraction? c = none := by simp [Numeral.leaveFraction?, hmark]
  unfold Numeral.isComplete at ends
  unfold Numeral.extend?
  split <;> simp_all [Numeral.pushExponent?]

/-- A character that no number goes on with is read as if the value had been complete before. -/
theorem Settles.step_eq {v : α} (h : Settles r v frames s) {c : Char}
    (hdigit : Numeral.digit? c = none) (hpoint : c ≠ '.') (hmark : Numeral.isMark c = false) :
    step r s c = follow r (.complete v frames) c := by
  cases h with
  | complete => cases frames with
    | nil => rfl
    | cons f rest => cases f <;> rfl
  | number ends value =>
    simp [step, Numeral.extend?_eq_none ends hdigit hpoint hmark, ends, completeScalar, value]

theorem Settles.result_eq {v : α} (h : Settles r v [] s) : s.result r = .ok v := by
  cases h with
  | complete => rfl
  | number ends value => simp [State.result, ends, value]

/-! ### Strings -/

theorem hexDigit?_hexChar : ∀ n < 16, hexDigit? (hexChar n) = some n := by decide

theorem utf8Size_hexChar : ∀ n < 16, (hexChar n).utf8Size = 1 := by decide

theorem hexChar_ne_quote : ∀ n < 16, hexChar n ≠ '"' := by decide

/-- A control character is read back from its number. -/
theorem Reaches.writeControl {seen : List Char} {c : Char} (hc : c.toNat < 0x20)
    (h : Reaches r out ⟨.text ⟨seen, true, .plain⟩, frames⟩) :
    Reaches r (((out ++ "\\u00").push (hexChar (c.toNat / 16))).push (hexChar (c.toNat % 16)))
      ⟨.text ⟨c :: seen, true, .plain⟩, frames⟩ := by
  obtain ⟨hi, hhi⟩ : ∃ hi, hi = c.toNat / 16 := ⟨_, rfl⟩
  obtain ⟨lo, hlo⟩ : ∃ lo, lo = c.toNat % 16 := ⟨_, rfl⟩
  have hmark : run r ⟨.text ⟨seen, true, .plain⟩, frames⟩ ['\\', 'u', '0', '0'] =
      some ⟨.text ⟨seen, true, .code none ['0', '0']⟩, frames⟩ := by
    have hsize : '0'.utf8Size = 1 := rfl
    simp [run, step, Text.extend?, Text.pushPlain?, Text.pushEscape?, hsize]
  have hsizes : List.foldl (fun n c => n + c.utf8Size) 0 ['0', '0', hexChar hi] = 3 := by
    simp [utf8Size_hexChar hi (by omega)]
    rfl
  have hsizes' : List.foldl (fun n c => n + c.utf8Size) 0 ['0', '0', hexChar hi, hexChar lo] = 4 := by
    simp [utf8Size_hexChar hi (by omega), utf8Size_hexChar lo (by omega)]
    rfl
  have hhigh : step r ⟨.text ⟨seen, true, .code none ['0', '0']⟩, frames⟩ (hexChar hi) =
      some ⟨.text ⟨seen, true, .code none ['0', '0', hexChar hi]⟩, frames⟩ := by
    simp [step, Text.extend?, hexChar_ne_quote hi (by omega), -List.foldl_cons, hsizes]
  have hunit : hexUnit? ['0', '0', hexChar hi, hexChar lo] = some c.toNat := by
    have hzero : hexDigit? '0' = some 0 := rfl
    have hsum : hi * 16 + lo = c.toNat := by omega
    simp [hexUnit?, hzero, hexDigit?_hexChar hi (by omega), hexDigit?_hexChar lo (by omega), hsum]
  have hlow : step r ⟨.text ⟨seen, true, .code none ['0', '0', hexChar hi]⟩, frames⟩ (hexChar lo) =
      some ⟨.text ⟨c :: seen, true, .plain⟩, frames⟩ := by
    have hlead : isLead c.toNat = false := by
      simp only [isLead, Bool.and_eq_false_iff, decide_eq_false_iff_not]
      omega
    have htrail : isTrail c.toNat = false := by
      simp only [isTrail, Bool.and_eq_false_iff, decide_eq_false_iff_not]
      omega
    simp [step, Text.extend?, hexChar_ne_quote lo (by omega), -List.foldl_cons, hsizes', hunit,
      Text.pushUnit?, hlead, htrail, Text.push, Char.ofNat_toNat]
  rw [← hhi, ← hlo]
  exact ((h.append hmark rfl).push hhigh).push hlow

theorem run_simpleEscape {seen : List Char} {e c : Char} (he : simpleEscape? e = some c) :
    run r ⟨.text ⟨seen, true, .plain⟩, frames⟩ ['\\', e] =
      some ⟨.text ⟨c :: seen, true, .plain⟩, frames⟩ := by
  have hslash : step r ⟨.text ⟨seen, true, .plain⟩, frames⟩ '\\' =
      some ⟨.text ⟨seen, true, .slash⟩, frames⟩ := by
    simp [step, Text.extend?, Text.pushPlain?]
  have hu : e ≠ 'u' := by
    rintro rfl
    have hnone : simpleEscape? 'u' = none := rfl
    rw [hnone] at he
    cases he
  have hescape : step r ⟨.text ⟨seen, true, .slash⟩, frames⟩ e =
      some ⟨.text ⟨c :: seen, true, .plain⟩, frames⟩ := by
    simp [step, Text.close?, Text.extend?, Text.pushEscape?, Text.push, he, hu]
  simp [run, hslash, hescape]

theorem Reaches.writeChar {seen : List Char} (c : Char)
    (h : Reaches r out ⟨.text ⟨seen, true, .plain⟩, frames⟩) :
    Reaches r (writeChar out c) ⟨.text ⟨c :: seen, true, .plain⟩, frames⟩ := by
  unfold Json.writeChar
  split_ifs with hquote hback h8 htab hline h12 hreturn hcontrol
  · exact h.append (run_simpleEscape (e := '"') (by rw [hquote]; rfl)) rfl
  · exact h.append (run_simpleEscape (e := '\\') (by rw [hback]; rfl)) rfl
  · exact h.append (run_simpleEscape (e := 'b') (by rw [h8]; rfl)) rfl
  · exact h.append (run_simpleEscape (e := 't') (by rw [htab]; rfl)) rfl
  · exact h.append (run_simpleEscape (e := 'n') (by rw [hline]; rfl)) rfl
  · exact h.append (run_simpleEscape (e := 'f') (by rw [h12]; rfl)) rfl
  · exact h.append (run_simpleEscape (e := 'r') (by rw [hreturn]; rfl)) rfl
  · exact h.writeControl hcontrol
  · refine h.push ?_
    simp [step, Text.extend?, Text.pushPlain?, Text.push, hquote, hback, hcontrol]

theorem Reaches.writeChars {seen : List Char} (cs : List Char)
    (h : Reaches r out ⟨.text ⟨seen, true, .plain⟩, frames⟩) :
    Reaches r (cs.foldl Json.writeChar out) ⟨.text ⟨cs.reverse ++ seen, true, .plain⟩, frames⟩ := by
  induction cs generalizing out seen with
  | nil => exact h
  | cons c cs ih =>
    have hrest := ih (h.writeChar c)
    rw [List.reverse_cons, List.append_assoc]
    exact hrest

/-- A text is read as a value or as a key, as the reader's place wants it. -/
theorem Reaches.writeText (text : String) (h : Reaches r out s)
    (hquote : step r s '"' = some ⟨.text .start, frames⟩)
    (hdone : completeText r (some text) frames = some s') : Reaches r (writeText out text) s' := by
  have hchars := (h.push hquote).writeChars text.toList
  refine hchars.push ?_
  have hvalue : Text.value? ⟨text.toList.reverse, true, .plain⟩ = some text := by
    simp [Text.value?]
  simp [step, Text.close?, hvalue, hdone]

/-! ### Integers -/

/-- The whole part of a number, read to its end. -/
def Numeral.ofWhole (negative : Bool) (m : Nat) : Numeral :=
  ⟨negative, m, 0, false, 0, if m = 0 then .zero else .whole⟩

theorem digit?_digitChar : ∀ d < 10, Numeral.digit? (Nat.digitChar d) = some d := by decide

theorem step_whole {negative : Bool} {m d : Nat} (hm : m ≠ 0) (hd : d < 10)
    (hfits : m * 10 + d ≤ Numeral.maxSignificand) :
    step r ⟨.number (.ofWhole negative m), frames⟩ (Nat.digitChar d) =
      some ⟨.number (.ofWhole negative (m * 10 + d)), frames⟩ := by
  simp [step, Numeral.ofWhole, Numeral.extend?, Numeral.pushWhole, digit?_digitChar d hd, hm, hfits]

/-- The digits of a number that fits are read back, once the first of them is. -/
theorem run_toDigits {negative : Bool}
    (hfirst : ∀ d < 10, step r s (Nat.digitChar d) = some ⟨.number (.ofWhole negative d), frames⟩)
    {m : Nat} (hm : m ≤ Numeral.maxSignificand) :
    run r s (Nat.toDigits 10 m) = some ⟨.number (.ofWhole negative m), frames⟩ := by
  induction m using Nat.strong_induction_on with
  | h m ih =>
    by_cases hsmall : m < 10
    · rw [Nat.toDigits_of_lt_base hsmall]
      simp [run, hfirst m hsmall]
    · have hrest := ih (m / 10) (by omega) (by omega)
      have hlast : step r ⟨.number (.ofWhole negative (m / 10)), frames⟩ (Nat.digitChar (m % 10)) =
          some ⟨.number (.ofWhole negative (m / 10 * 10 + m % 10)), frames⟩ :=
        step_whole (by omega) (by omega) (by omega)
      rw [Nat.toDigits_of_base_le (by decide) (by omega), run_append, hrest, Option.bind_some]
      simp [run, hlast, Nat.div_add_mod']

theorem start?_digitChar : ∀ d < 10,
    Numeral.start? (Nat.digitChar d) = some (.ofWhole false d) := by decide

theorem first?_digitChar : ∀ d < 10,
    Numeral.first? ⟨true, 0, 0, false, 0, .sign⟩ (Nat.digitChar d) = some (.ofWhole true d) := by
  decide

theorem digitChar_notMem : ∀ d < 10,
    Nat.digitChar d ∉ ['[', ']', '\x7b', '"', 'n', 't', 'f', ' ', '\t', '\r', '\n'] := by decide

theorem State.Awaits.step_digitChar (h : s.Awaits) {d : Nat} (hd : d < 10) :
    step r s (Nat.digitChar d) = some ⟨.number (.ofWhole false d), s.frames⟩ := by
  have hother := digitChar_notMem d hd
  simp only [List.mem_cons, List.not_mem_nil, or_false, not_or] at hother
  rw [h.step_eq (by simp [isBlank, hother]) (by simp [hother])]
  simp [openValue, hother, start?_digitChar d hd]

theorem State.Awaits.step_minus (h : s.Awaits) :
    step r s '-' = some ⟨.number ⟨true, 0, 0, false, 0, .sign⟩, s.frames⟩ := by
  rw [h.step_eq rfl (by decide)]
  rfl

theorem step_sign_digitChar {d : Nat} (hd : d < 10) :
    step r ⟨.number ⟨true, 0, 0, false, 0, .sign⟩, frames⟩ (Nat.digitChar d) =
      some ⟨.number (.ofWhole true d), frames⟩ := by
  simp [step, Numeral.extend?, first?_digitChar d hd]

theorem settles_ofWhole {negative : Bool} {m : Nat} {n : Int}
    (hn : (Numeral.ofWhole negative m).int? = some n) :
    Settles r (r.scalar (.int n)) frames ⟨.number (.ofWhole negative m), frames⟩ := by
  refine .number ?_ ?_
  · by_cases hm : m = 0 <;> simp [Numeral.ofWhole, Numeral.isComplete, hm]
  · simp [Numeral.value?, hn, Reading.scalar?]

theorem int?_ofWhole_false (m : Nat) : (Numeral.ofWhole false m).int? = some (m : Int) := by
  by_cases hm : m = 0 <;> simp [Numeral.ofWhole, Numeral.int?, Numeral.isWhole, hm]

theorem int?_ofWhole_true {m : Nat} (hm : m ≠ 0) (hfits : m ≤ 2 ^ 63) :
    (Numeral.ofWhole true m).int? = some (-(m : Int)) := by
  simp [Numeral.ofWhole, Numeral.int?, Numeral.isWhole, hm]
  omega

theorem Reaches.writeInt {n : Int} (low : -2 ^ 63 ≤ n) (high : n < 2 ^ 64) (h : Reaches r out s)
    (hs : s.Awaits) :
    ∃ s', Reaches r (out ++ intText n) s' ∧ Settles r (r.scalar (.int n)) s.frames s' := by
  have hfits : n.natAbs ≤ Numeral.maxSignificand := by
    unfold Numeral.maxSignificand
    omega
  by_cases hneg : n < 0
  · have hvalue := int?_ofWhole_true (m := n.natAbs) (by omega) (by omega)
    rw [show -(n.natAbs : Int) = n by omega] at hvalue
    have hdigits : run r s ('-' :: Nat.toDigits 10 n.natAbs) =
        some ⟨.number (.ofWhole true n.natAbs), s.frames⟩ := by
      simp only [run, hs.step_minus]
      exact run_toDigits (fun d hd => step_sign_digitChar hd) hfits
    have htext : (intText n).toList = '-' :: Nat.toDigits 10 n.natAbs := by
      simp [intText, hneg]
    exact ⟨_, h.append hdigits htext, settles_ofWhole hvalue⟩
  · have hvalue := int?_ofWhole_false n.natAbs
    rw [show (n.natAbs : Int) = n by omega] at hvalue
    have hdigits := run_toDigits (fun d hd => hs.step_digitChar (r := r) hd) hfits
    have htext : (intText n).toList = Nat.toDigits 10 n.natAbs := by simp [intText, hneg]
    exact ⟨_, h.append hdigits htext, settles_ofWhole hvalue⟩

/-! ### Values -/

/-- Writing the value takes the reader over it, wherever it waits for a value. -/
def ReadsBack (r : Reading α) (w : Json) : Prop :=
  ∀ {out : String} {s : State α}, Reaches r out s → s.Awaits →
    ∃ s', Reaches r (write out w) s' ∧ Settles r (r.value w) s.frames s'

/-- The rest of an array, after an item. -/
theorem Reaches.writeItems {items : List Json} (hall : ∀ w ∈ items, ReadsBack r w) {v : α}
    {before : List α} (h : Reaches r out s) (hs : Settles r v (.array before :: frames) s) :
    Reaches r ((writeItems out false items).push ']')
      (.complete (r.array (before.reverse ++ v :: items.map r.value)) frames) := by
  induction items generalizing out s v before with
  | nil =>
    refine h.push ?_
    rw [hs.step_eq rfl (by decide) rfl]
    simp [follow, isBlank, State.complete, closeArray]
  | cons w items ih =>
    have hcomma : step r s ',' = some ⟨.value, .array (v :: before) :: frames⟩ := by
      rw [hs.step_eq rfl (by decide) rfl]
      rfl
    obtain ⟨s', hreach, hsettles⟩ :=
      hall w List.mem_cons_self (h.push hcomma) ⟨.inl rfl, by simp⟩
    have hrest := ih (fun x hx => hall x (List.mem_cons_of_mem _ hx)) hreach hsettles
    rw [List.reverse_cons, List.append_assoc] at hrest
    exact hrest

theorem Reaches.writeArray {items : List Json} (hall : ∀ w ∈ items, ReadsBack r w)
    (h : Reaches r out s) (hs : s.Awaits) :
    Reaches r (write out (.array items)) (.complete (r.value (.array items)) s.frames) := by
  have hopen : step r s '[' = some ⟨.item, .array [] :: s.frames⟩ := by
    rw [hs.step_eq rfl (by decide)]
    rfl
  rw [Reading.value_array]
  cases items with
  | nil => exact (h.push hopen).push rfl
  | cons w items =>
    obtain ⟨s', hreach, hsettles⟩ :=
      hall w List.mem_cons_self (h.push hopen) ⟨.inr rfl, by simp⟩
    exact hreach.writeItems (fun x hx => hall x (List.mem_cons_of_mem _ hx)) hsettles

theorem Reaches.writeMember {m : String × Json} (hm : ReadsBack r m.2)
    {members : List (Option String × α)} (h : Reaches r out s)
    (hquote : step r s '"' = some ⟨.text .start, .object members :: frames⟩) :
    ∃ s', Reaches r (writeMember out m) s' ∧
      Settles r (r.value m.2) (.member members (some m.1) :: frames) s' := by
  obtain ⟨key, w⟩ := m
  have hkey := h.writeText key hquote rfl
  have hcolon : step r ⟨.colon, .member members (some key) :: frames⟩ ':' =
      some ⟨.value, .member members (some key) :: frames⟩ := rfl
  rw [Json.writeMember]
  exact hm (hkey.push hcolon) ⟨.inl rfl, by simp⟩

/-- The rest of an object, after a member. -/
theorem Reaches.writeMembers {members : List (String × Json)}
    (hall : ∀ m ∈ members, ReadsBack r m.2) {key : Option String} {v : α}
    {before : List (Option String × α)} (h : Reaches r out s)
    (hs : Settles r v (.member before key :: frames) s) :
    Reaches r ((writeMembers out false members).push '\x7d')
      (.complete (r.object
        (before.reverse ++ (key, v) :: members.map fun m => (some m.1, r.value m.2))) frames) := by
  induction members generalizing out s key v before with
  | nil =>
    refine h.push ?_
    rw [hs.step_eq rfl (by decide) rfl]
    simp [follow, isBlank, State.complete, closeObject]
  | cons m members ih =>
    have hcomma : step r s ',' = some ⟨.nextKey, .object ((key, v) :: before) :: frames⟩ := by
      rw [hs.step_eq rfl (by decide) rfl]
      rfl
    obtain ⟨s', hreach, hsettles⟩ := (h.push hcomma).writeMember (hall m List.mem_cons_self) rfl
    have hrest := ih (fun x hx => hall x (List.mem_cons_of_mem _ hx)) hreach hsettles
    rw [List.reverse_cons, List.append_assoc] at hrest
    exact hrest

theorem Reaches.writeObject {members : List (String × Json)}
    (hall : ∀ m ∈ members, ReadsBack r m.2) (h : Reaches r out s) (hs : s.Awaits) :
    Reaches r (write out (.object members)) (.complete (r.value (.object members)) s.frames) := by
  have hopen : step r s '\x7b' = some ⟨.key, .object [] :: s.frames⟩ := by
    rw [hs.step_eq rfl (by decide)]
    rfl
  rw [Reading.value_object]
  cases members with
  | nil => exact (h.push hopen).push rfl
  | cons m members =>
    obtain ⟨s', hreach, hsettles⟩ := (h.push hopen).writeMember (hall m List.mem_cons_self) rfl
    exact hreach.writeMembers (fun x hx => hall x (List.mem_cons_of_mem _ hx)) hsettles

theorem completeText_eq (text : String) (hframes : ∀ members rest, frames ≠ .object members :: rest) :
    completeText r (some text) frames = some (.complete (r.scalar (.string text)) frames) := by
  unfold completeText
  split
  · exact absurd rfl (hframes _ _)
  · rfl

/-- What is printed of a value is read as the value, in any place for a value. -/
theorem Exact.readsBack {w : Json} (hw : Exact w) : ReadsBack r w := by
  induction hw with
  | null =>
    intro out s h hs
    have hword : run r s ['n', 'u', 'l', 'l'] = some (.complete (r.scalar .null) s.frames) := by
      simp only [run, hs.step_eq (c := 'n') rfl (by decide)]
      rfl
    exact ⟨_, h.append hword rfl, .complete⟩
  | bool b =>
    intro out s h hs
    cases b with
    | true =>
      have hword : run r s ['t', 'r', 'u', 'e'] =
          some (.complete (r.scalar (.bool true)) s.frames) := by
        simp only [run, hs.step_eq (c := 't') rfl (by decide)]
        rfl
      exact ⟨_, h.append hword rfl, .complete⟩
    | false =>
      have hword : run r s ['f', 'a', 'l', 's', 'e'] =
          some (.complete (r.scalar (.bool false)) s.frames) := by
        simp only [run, hs.step_eq (c := 'f') rfl (by decide)]
        rfl
      exact ⟨_, h.append hword rfl, .complete⟩
  | int low high =>
    intro out s h hs
    exact h.writeInt low high hs
  | string text =>
    intro out s h hs
    have hquote : step r s '"' = some ⟨.text .start, s.frames⟩ := by
      rw [hs.step_eq rfl (by decide)]
      rfl
    exact ⟨_, h.writeText text hquote (completeText_eq text hs.frames), .complete⟩
  | array _ ih =>
    intro out s h hs
    exact ⟨_, h.writeArray (fun w hw => ih w hw) hs, .complete⟩
  | object _ ih =>
    intro out s h hs
    exact ⟨_, h.writeObject (fun m hm => ih m hm) hs, .complete⟩

theorem read_compress (r : Reading α) {v : Json} (hv : Exact v) :
    read r v.compress = .ok (r.value v) := by
  have hempty : Reaches r "" .start := rfl
  obtain ⟨s, hreach, hsettles⟩ := hv.readsBack hempty State.awaits_start
  have hrun : run r .start v.compress.toList = some s := hreach
  rw [read, hrun]
  exact hsettles.result_eq

end CallTrace.Json
