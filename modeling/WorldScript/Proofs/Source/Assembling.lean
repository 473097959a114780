import Mathlib.Data.List.Basic
import WorldScript.Proofs.Code.Containers
import WorldScript.Proofs.Source.Outlines

/-!
The assembler implements the grammar: the text of a well-formed program is assembled, and the unit
holds what the lines of the program mean.

The second pass goes over the statements that the first one has found. What carries it is that the
string table holds the strings of the statements done so far, each where it came first.

Main statements: `assemble_source` and `assembler_implements_grammar`.
-/
set_option autoImplicit false

namespace WorldScript.Source

open Grammar

/-! ### The string table -/

section

variable {table : Array String} {seen : List String} {s : String}

theorem eraseDups_concat (seen : List String) (s : String) :
    (seen ++ [s]).eraseDups = if s ∈ seen then seen.eraseDups else seen.eraseDups ++ [s] := by
  rw [List.eraseDups_append]
  by_cases h : s ∈ seen <;> simp [List.removeAll, List.eraseDups_cons, h]

theorem intern_spec (h : table.toList = seen.eraseDups) (s : String) :
    (intern table s).1.toList = (seen ++ [s]).eraseDups ∧
      ∀ more, (seen ++ s :: more).eraseDups.idxOf s = (intern table s).2 := by
  have hplace : ∀ more,
      (seen ++ s :: more).eraseDups.idxOf s = (seen ++ [s]).eraseDups.idxOf s := by
    intro more
    rw [List.append_cons, List.eraseDups_append, List.idxOf_append_of_mem (by simp)]
  have hindex := List.idxOf_eq_getD_idxOf? s table.toList
  have hmem : s ∈ seen ↔ s ∈ table.toList := by rw [h, List.mem_eraseDups]
  simp only [hplace, forall_const, eraseDups_concat, ← h, hmem]
  have hsearch : List.idxOf? s table.toList = table.idxOf? s := by
    rw [← List.idxOf?_toArray, Array.toArray_toList]
  rw [hsearch] at hindex
  unfold intern
  cases hk : table.idxOf? s with
  | some k =>
    have hs : s ∈ table.toList := by
      by_contra hnot
      rw [Array.idxOf?_eq_none_iff.2 (by simpa using hnot)] at hk
      cases hk
    simpa [hs, hk] using hindex
  | none =>
    have hs : s ∉ table.toList := by simpa using Array.idxOf?_eq_none_iff.1 hk
    rw [if_neg hs, List.idxOf_append_of_notMem hs]
    simp

end

/-! ### Operands -/

section

variable {labels : OrderedMap String Nat} {p : Program} {layout : Layout}

def Places (labels : OrderedMap String Nat) (p : Program) : Prop :=
  ∀ n ∈ p.labels, labels.get? n.text = some (p.address n)

theorem Grammar.Program.position_le {marked : Bool} {t : Target}
    (h : p.InRange layout (.target marked t)) :
    p.position t ≤ p.phrases.length ∧ p.position t ≤ Program.lastPosition layout := by
  cases t with
  | label n => exact ⟨p.address_le n, h.2⟩
  | index d => exact h

theorem Grammar.Digits.ne_cons (d : Digits) {c : Char} (hc : c.isDigit = false) (rest : List Char) :
    d.chars ≠ c :: rest := by
  intro he
  have hdigit : d.first.isDigit = true := d.digits d.first (by simp)
  rw [(List.cons.inj he).1, hc] at hdigit
  cases hdigit

theorem Grammar.Name.ne_cons (n : Name) {c : Char} (hc : isNameStart c = false) (rest : List Char) :
    n.chars ≠ c :: rest := by
  intro he
  have hname := n.isName
  rw [he, Source.isName, hc] at hname
  cases hname

theorem Grammar.Target.ne_cons (t : Target) {c : Char} (hname : isNameStart c = false)
    (hdigit : c.isDigit = false) (rest : List Char) : t.chars ≠ c :: rest := by
  cases t with
  | label n => exact n.ne_cons hname rest
  | index d => exact d.ne_cons hdigit rest

theorem readTarget_optional {text : List Char} (h : ∀ rest, text ≠ '@' :: rest) (line : Nat)
    (marked : Bool) :
    readTarget labels line (Argument.optional '@' marked ++ text) = readTarget labels line text := by
  cases marked with
  | false => rfl
  | true =>
    -- by `h` there is no second mark to take off
    simp [readTarget, Argument.optional]

theorem readTarget_chars (hlabels : Places labels p) (line : Nat) {marked : Bool} {t : Target}
    (h : p.InRange layout (.target marked t)) :
    readTarget labels line (Argument.target marked t).chars = .ok (p.position t) := by
  have hmark : ∀ rest, t.chars ≠ '@' :: rest := t.ne_cons (by decide) (by decide)
  rw [Argument.chars, readTarget_optional hmark]
  cases t with
  | label n =>
    have hget : labels.get? (String.ofList n.chars) = some (p.address n) := hlabels n h.1
    simp only [Target.chars] at hmark ⊢
    simp [readTarget, n.readBounded?, hget, Program.position]
  | index d =>
    have hbound : d.value ≤ 4294967295 := by
      have hle := h.2
      unfold Program.lastPosition at hle
      split at hle <;> omega
    simp only [Target.chars] at hmark ⊢
    simp [readTarget, d.readBounded? hbound, Program.position]

theorem readPlain_chars (hlabels : Places labels p) (line : Nat) {a : Argument}
    (hlayout : layout ∈ a.layouts) (hstring : layout ≠ .stringIndex) (h : p.InRange layout a) :
    readPlain labels line layout a.chars = .ok (p.operand layout a) := by
  cases a with
  | target marked t =>
    have hread := readTarget_chars hlabels line h
    obtain ⟨-, hle⟩ := Program.position_le h
    obtain rfl | rfl : layout = .codeOffset ∨ layout = .callTarget := by
      simpa [Argument.layouts] using hlayout
    · simp only [readPlain, hread]
      rfl
    · have hfits : p.position t ≤ 65535 := hle
      simp only [readPlain, hread]
      exact if_pos hfits
  | slot marked d =>
    obtain rfl : layout = .slot := by simpa [Argument.layouts] using hlayout
    -- simp finds `hmark` when there is no mark to take off
    have hmark : ∀ rest, d.chars ≠ '$' :: rest := d.ne_cons (by decide)
    cases marked <;>
      simp [readPlain, Argument.chars, Argument.optional, d.readBounded? h, Program.operand]
  | number n =>
    obtain rfl : layout = .number := by simpa [Argument.layouts] using hlayout
    simp only [readPlain, Argument.chars, n.readNumber?]
    rfl
  | entity d =>
    obtain rfl : layout = .entity := by simpa [Argument.layouts] using hlayout
    simp only [readPlain, Argument.chars, d.readBounded? h]
    rfl
  | string pieces =>
    exact absurd (by simpa [Argument.layouts] using hlayout) hstring

end

/-! ### Statements -/

section

variable {labels : OrderedMap String Nat} {p : Program} {table : Array String} {s : Pending}

theorem instruction_string {text : List Char} {value : List Char}
    (hlayout : s.opcode.layout = .stringIndex) (htext : s.operand = some text)
    (h : readString? text = some value) :
    s.instruction labels table =
      .ok (⟨s.opcode, .stringIndex (UInt32.ofNat (intern table (String.ofList value)).2), 0⟩,
        (intern table (String.ofList value)).1) := by
  simp only [Pending.instruction, hlayout, htext, h]

theorem instruction_plain {text : List Char} {operand : Operand}
    (hnone : s.opcode.layout ≠ .none) (hstring : s.opcode.layout ≠ .stringIndex)
    (htext : s.operand = some text)
    (h : readPlain labels s.line s.opcode.layout text = .ok operand) :
    s.instruction labels table = .ok (⟨s.opcode, operand, 0⟩, table) := by
  unfold Pending.instruction
  dsimp only
  rw [htext]
  split
  case h_1 hlayout _ => exact absurd hlayout hnone
  case h_2 hlayout _ => exact absurd hlayout hnone
  case h_3 he _ => cases he
  case h_4 hlayout _ => exact absurd hlayout hstring
  case h_5 he _ _ =>
    cases he
    rw [h]
    rfl

/-- A statement is read as the instruction it stands for, and its string, if it has one, is in the
table from then on. -/
theorem instruction_phrase (hlabels : Places labels p) {done todo : List Phrase} {ph : Phrase}
    (hphrases : p.phrases = done ++ ph :: todo) (hopcode : s.opcode = ph.opcode)
    (hoperand : s.operand = ph.operand)
    (hrange : ∀ x ∈ ph.argument, p.InRange ph.opcode.layout x.2)
    (htable : table.toList = Program.stringsOf done) :
    ∃ table', s.instruction labels table = .ok (p.instruction ph, table') ∧
      table'.toList = Program.stringsOf (done ++ [ph]) := by
  unfold Program.stringsOf at *
  rw [List.filterMap_append]
  cases harg : ph.argument with
  | none =>
    refine ⟨table, ?_, by simpa [Phrase.string?, harg] using htable⟩
    simp only [Pending.instruction, hopcode, hoperand, Phrase.operand, harg, ph.bare harg,
      Program.instruction]
    rfl
  | some x =>
    obtain ⟨g, a⟩ := x
    have hlayout : s.opcode.layout ∈ a.layouts := hopcode ▸ (ph.fits (g, a) harg).2
    have htext : s.operand = some a.chars := by rw [hoperand, Phrase.operand, harg]; rfl
    have hinstruction : p.instruction ph = ⟨s.opcode, p.operand s.opcode.layout a, 0⟩ := by
      simp only [Program.instruction, harg, hopcode]
    rw [hinstruction]
    cases a with
    | string pieces =>
      have hstring : ph.string? = some (stringOf pieces) := by simp [Phrase.string?, harg]
      have hstringIndex : s.opcode.layout = .stringIndex := by
        simpa [Argument.layouts] using hlayout
      obtain ⟨hmore, hplace⟩ := intern_spec htable (stringOf pieces)
      -- the strings of all statements begin with those met so far, so the place is final
      have hindex : p.strings.idxOf (stringOf pieces) = (intern table (stringOf pieces)).2 := by
        rw [Program.strings, hphrases, Program.stringsOf, List.filterMap_append,
          List.filterMap_cons_some hstring, hplace]
      refine ⟨(intern table (stringOf pieces)).1, ?_, by simpa [hstring] using hmore⟩
      rw [instruction_string hstringIndex htext (readString?_pieces pieces)]
      simp only [Program.operand, hindex]
      rfl
    | _ =>
      have hstring : ph.string? = none := by simp [Phrase.string?, harg]
      have hnone : s.opcode.layout ≠ .none := by
        intro he
        simp [he, Argument.layouts] at hlayout
      have hplain : s.opcode.layout ≠ .stringIndex := by
        intro he
        simp [he, Argument.layouts] at hlayout
      have hread := readPlain_chars hlabels s.line hlayout hplain (hopcode ▸ hrange _ harg)
      exact ⟨table, instruction_plain hnone hplain htext hread, by simpa [hstring] using htable⟩

theorem readOperands_phrases (hlabels : Places labels p)
    (hrange : ∀ ph ∈ p.phrases, ∀ x ∈ ph.argument, p.InRange ph.opcode.layout x.2)
    {done : List Phrase} (todo : List Phrase) (hphrases : p.phrases = done ++ todo)
    (statements : List Pending)
    (h : statements.map (fun s => (s.opcode, s.operand)) =
      todo.map fun ph => (ph.opcode, ph.operand))
    {code : Array Instruction} (hcode : code.toList = done.map p.instruction)
    (htable : table.toList = Program.stringsOf done) :
    ∃ code' table', readOperands labels code table statements = .ok (code', table') ∧
      code'.toList = p.code ∧ table'.toList = p.strings := by
  induction todo generalizing done statements code table with
  | nil =>
    obtain rfl : statements = [] := by simpa using h
    rw [List.append_nil] at hphrases
    refine ⟨code, table, rfl, ?_, ?_⟩
    · rw [hcode, Program.code, hphrases]
    · rw [htable, Program.strings, hphrases]
  | cons ph todo ih =>
    cases statements with
    | nil => cases h
    | cons s statements =>
      obtain ⟨hs, hmore⟩ := List.cons.inj h
      obtain ⟨hopcode, hoperand⟩ := Prod.mk.inj hs
      obtain ⟨table', hi, htable'⟩ := instruction_phrase hlabels hphrases hopcode hoperand
        (hrange ph (by simp [hphrases])) htable
      have hcode' : (code.push (p.instruction ph)).toList = (done ++ [ph]).map p.instruction := by
        simp [hcode]
      rw [List.append_cons] at hphrases
      obtain ⟨code'', table'', hrest, hends⟩ := ih hphrases statements hmore hcode' htable'
      refine ⟨code'', table'', ?_, hends⟩
      rw [readOperands, hi]
      exact hrest

end

/-! ### Whole programs -/

namespace Grammar.Program

variable {p : Program} {layout : Layout}

theorem target?_operand {marked : Bool} {t : Target} (h : p.InRange layout (.target marked t)) :
    (p.operand layout (.target marked t)).target? = some (p.position t) := by
  obtain ⟨-, hle⟩ := position_le h
  unfold lastPosition at hle
  simp only [operand]
  split at hle
  case isTrue hcall =>
    rw [if_pos hcall, Operand.target?, UInt16.toNat_ofNat_of_lt' (Nat.lt_succ_of_le hle)]
  case isFalse hcall =>
    rw [if_neg hcall, Operand.target?, UInt32.toNat_ofNat_of_lt' (Nat.lt_succ_of_le hle)]

theorem WellFormed.slotCount_le (h : p.WellFormed) : p.slotCount ≤ 65535 := by
  unfold slotCount
  cases hd : (p.filterMap Line.slots?).getLast? with
  | none => simp
  | some d => exact h.slots d (List.mem_of_getLast? hd)

theorem mem_strings {s : String} : s ∈ p.strings ↔ ∃ ph ∈ p.phrases, ph.string? = some s := by
  rw [strings, stringsOf, List.mem_eraseDups, List.mem_filterMap]

theorem WellFormed.sound (h : p.WellFormed) : unitDefect? p.code p.strings = none := by
  refine CodeUnit.unitDefect?_eq_none_iff.2 ⟨fun s hs => ?_, fun i hi => ?_⟩
  · obtain ⟨ph, hph, hs⟩ := mem_strings.1 hs
    unfold Phrase.string? at hs
    split at hs
    case h_1 g pieces harg =>
      obtain rfl := Option.some.inj hs
      exact (h.arguments ph hph _ harg).1
    case h_2 => cases hs
  · obtain ⟨ph, hph, rfl⟩ := List.mem_map.1 hi
    have hlength : p.code.length = p.phrases.length := List.length_map _
    rw [hlength]
    unfold instruction
    cases harg : ph.argument with
    | none => simp [Operand.target?, Operand.stringIndex?]
    | some x =>
      obtain ⟨g, a⟩ := x
      have hrange := h.arguments ph hph (g, a) harg
      cases a with
      | target marked t =>
        obtain ⟨hlength, -⟩ := position_le hrange
        have htarget := target?_operand hrange
        refine ⟨fun t' ht' => ?_, fun k hk => ?_⟩
        · obtain rfl := Option.some.inj (htarget.symm.trans ht')
          exact hlength
        · simp only [operand] at hk
          split at hk <;> cases hk
      | string pieces =>
        refine ⟨fun t ht => ?_, fun k hk => ?_⟩
        · cases ht
        · have hmem : stringOf pieces ∈ p.strings :=
            mem_strings.2 ⟨ph, hph, by rw [Phrase.string?, harg]⟩
          obtain rfl := Option.some.inj hk
          rw [UInt32.toNat_ofNat_of_lt' (Nat.lt_succ_of_le hrange.2)]
          exact List.idxOf_lt_length_iff.2 hmem
      | _ => simp [operand, Operand.target?, Operand.stringIndex?]

end Grammar.Program

/-- The text of a well-formed program is assembled as what the program means. -/
theorem assemble_source {p : Program} (h : p.WellFormed) :
    ∃ u, assemble p.source = .ok u ∧ u.slotCount.toNat = p.slotCount ∧
      u.strings.toList = p.strings ∧ u.code.toList = p.code := by
  obtain ⟨o, houtline, hcovers⟩ := Outline.addLines_source h.distinct h.slots
  have hlabels : Places o.labels p := by
    intro n hn
    rw [hcovers.labels, if_pos hn]
  have hcode : (#[] : Array Instruction).toList = ([] : List Phrase).map p.instruction := rfl
  have htable : (#[] : Array String).toList = Program.stringsOf [] := rfl
  obtain ⟨code, strings, hread, hcode, hstrings⟩ := readOperands_phrases hlabels h.arguments
    p.phrases rfl o.statements.toList hcovers.statements hcode htable
  have hsound : unitDefect? code.toList strings.toList = none := by
    rw [hcode, hstrings]
    exact h.sound
  have hparts : CodeUnit.ofParts o.slotCount strings code =
      .ok ⟨o.slotCount, strings, code, hsound⟩ :=
    CodeUnit.ofParts_eq_ok_iff.2 ⟨rfl, rfl, rfl⟩
  refine ⟨⟨o.slotCount, strings, code, hsound⟩, ?_, ?_, hstrings, hcode⟩
  · simp only [assemble, assembleLines, houtline, hread, hparts, bind, Except.bind]
    rfl
  · rw [hcovers.slotCount]
    exact UInt16.toNat_ofNat_of_lt' (Nat.lt_succ_of_le h.slotCount_le)

/-- The assembler implements the grammar. A label that an operand names, with its mark or without,
stands in the code as the number of statements on the lines before the label. -/
theorem assembler_implements_grammar {p : Program} (h : p.WellFormed) :
    ∃ u, assemble p.source = .ok u ∧ u.slotCount.toNat = p.slotCount ∧
      u.strings.toList = p.strings ∧ u.code.toList = p.code ∧
      ∀ (before : Program) (l : Line) (after : Program) (n : Name),
        p = before ++ l :: after → l.label = some n →
        ∀ (i : Nat) (ph : Phrase) (g : Gap) (marked : Bool), p.phrases[i]? = some ph →
          ph.argument = some (g, .target marked (.label n)) →
          ∃ operand, u.code[i]? = some ⟨ph.opcode, operand, 0⟩ ∧
            operand.target? = some before.phrases.length := by
  obtain ⟨u, hu, hslots, hstrings, hcode⟩ := assemble_source h
  refine ⟨u, hu, hslots, hstrings, hcode, ?_⟩
  intro before l after n hp hl i ph g marked hi harg
  have hrange := h.arguments ph (List.mem_of_getElem? hi) _ harg
  have haddress : p.address n = before.phrases.length := by
    have hdistinct := h.distinct
    rw [hp, Program.labels, List.filterMap_append, List.filterMap_cons_some hl] at hdistinct
    have hfirst : n ∉ before.labels :=
      fun hn => (List.nodup_append.1 hdistinct).2.2 n hn n (by simp) rfl
    rw [hp, Program.address_of_label hfirst hl]
  refine ⟨p.operand ph.opcode.layout (.target marked (.label n)), ?_, ?_⟩
  · rw [← Array.getElem?_toList, hcode, Program.code, List.getElem?_map, hi]
    simp only [Option.map_some, Program.instruction, harg]
  · rw [Program.target?_operand hrange, ← haddress]
    rfl

/-! ### A program with labels -/

namespace Announcer

def spaces (n : Nat) : Gap where
  chars := List.replicate n ' '
  blank := by
    intro c hc
    obtain rfl := (List.mem_replicate.1 hc).2
    decide

def line (label : Option Name) (content : Option Content) (comment : Option (List Char))
    (single : ∀ cs ∈ comment, '\n' ∉ cs) : Line where
  indent := spaces (if label.isSome then 0 else 2)
  label := label
  between := spaces 1
  content := content
  trailing := spaces 1
  comment := comment
  apart := fun _ _ => by decide
  single := single

def start : Name := ⟨'g', ['o'], by decide, by simp⟩

def finish : Name := ⟨'e', ['n', 'd'], by decide, by simp⟩

def slots (word : List Char) (count : Digits) (spelled : Spells word ".slots") : Content :=
  .slots word (spaces 1) count spelled (by decide)

def push : Phrase where
  opcode := .pushString
  word := ['P', 'u', 's', 'h']
  argument := some (spaces 2, .string [.plain 'a' (by decide), .plain ';' (by decide), .newline])
  spelled := by decide
  bare := by decide
  fits := by decide

def jump : Phrase where
  opcode := .jump
  word := ['J', 'M', 'P']
  argument := some (spaces 1, .target true (.label finish))
  spelled := by decide
  bare := by decide
  fits := by decide

def call : Phrase where
  opcode := .call
  word := ['c', 'a', 'l', 'l']
  argument := some (spaces 1, .target false (.label start))
  spelled := by decide
  bare := by decide
  fits := by decide

def program : Program := [
  line none (some (slots ".slots".toList ⟨'9', [], by simp⟩ (by decide))) none (by decide),
  line (some start) (some (.phrase push)) none (by decide),
  line none (some (.phrase jump)) (some [';', '"']) (by decide),
  line none none none (by decide),
  line none (some (.phrase call)) none (by decide),
  line none (some (slots ".Slots".toList ⟨'0', ['2'], by simp⟩ (by decide))) none (by decide),
  line (some finish) none (some ['x']) (by decide)]

def text : String :=
  "   .slots 9 \ngo: Push  \"a;\\n\" \n   JMP @end ;;\"\n    \n   call go \n   .Slots 02 \nend:  ;x"

end Announcer

theorem assembler_implements_grammar_announcer :
    Announcer.program.WellFormed ∧ Announcer.program.source = Announcer.text ∧
      ∃ u, assemble Announcer.text = .ok u ∧ u.slotCount.toNat = 2 ∧
        u.strings.toList = ["a;\n"] ∧
        u.code.toList = [⟨.pushString, .stringIndex 0, 0⟩, ⟨.jump, .codeOffset 3, 0⟩,
          ⟨.call, .callTarget 0, 0⟩] := by
  have h : Announcer.program.WellFormed := by decide
  have htext : Announcer.program.source = Announcer.text := by decide
  have hcode : Announcer.program.code = [⟨.pushString, .stringIndex 0, 0⟩,
      ⟨.jump, .codeOffset 3, 0⟩, ⟨.call, .callTarget 0, 0⟩] := by decide
  obtain ⟨u, hu, hslots, hstrings, hunit, -⟩ := assembler_implements_grammar h
  rw [htext] at hu
  exact ⟨h, htext, u, hu, hslots, hstrings, hunit.trans hcode⟩

end WorldScript.Source
