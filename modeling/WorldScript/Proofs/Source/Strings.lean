import WorldScript.Proofs.Source.Assembling

/-!
Every string survives the assembler. A line that pushes a string, written as a literal and followed
by any comment, becomes one instruction that names the string, whatever characters are in it.

The lines are lines of the grammar, so the scanners take them apart as its other lines. What is new
is the other direction: each text has pieces that it is written with.

Main statement: `assemble_pushes`.
-/
set_option autoImplicit false

namespace WorldScript.Source

open Grammar

/-! ### The pieces of a text -/

namespace Grammar

def Piece.ofChar (c : Char) : Piece :=
  if hnewline : c = '\n' then .newline
  else if c = '\t' then .tab
  else if hquote : c = '"' then .quote
  else if hbackslash : c = '\\' then .backslash
  else .plain c ⟨hquote, hbackslash, hnewline⟩

theorem Piece.chars_ofChar (c : Char) (rest : List Char) :
    (Piece.ofChar c).chars ++ escape rest = escape (c :: rest) := by
  unfold ofChar
  split_ifs with hnewline htab hquote hbackslash
  · rw [hnewline]
    rfl
  · rw [htab]
    rfl
  · rw [hquote]
    rfl
  · rw [hbackslash]
    rfl
  · simp [escape, chars]

theorem flatMap_chars_ofChar (text : List Char) :
    (text.map Piece.ofChar).flatMap Piece.chars = escape text := by
  induction text with
  | nil => rfl
  | cons c rest ih => rw [List.map_cons, List.flatMap_cons, ih, Piece.chars_ofChar]

theorem Argument.chars_ofChar (text : List Char) :
    (Argument.string (text.map Piece.ofChar)).chars = writeString text := by
  rw [Argument.chars, flatMap_chars_ofChar]
  rfl

end Grammar

/-! ### Lines that push strings -/

/-- A string to push, with the white space and the comment that follow on its line. -/
structure Push where
  text : String
  gap : Gap
  comment : Option String
  short : text.utf8ByteSize ≤ 65535
  single : ∀ c ∈ comment, '\n' ∉ c.toList

namespace Push

def chars (e : Push) : List Char :=
  "push ".toList ++ writeString e.text.toList ++ e.gap.chars ++
    (e.comment.map fun c => ';' :: c.toList).getD []

def source (es : List Push) : String := String.ofList (['\n'].intercalate (es.map chars))

def noGap : Gap := ⟨[], by simp⟩

def oneSpace : Gap where
  chars := [' ']
  blank c hc := by
    rw [List.mem_singleton.1 hc]
    exact ⟨rfl, by decide⟩

def phrase (e : Push) : Phrase where
  opcode := .pushString
  word := "push".toList
  argument := some (oneSpace, .string (e.text.toList.map Piece.ofChar))
  spelled := .inr ⟨by decide, .inl rfl⟩
  bare := nofun
  fits := by
    rintro x ⟨⟩
    exact ⟨List.cons_ne_nil _ _, List.mem_singleton.2 rfl⟩

def line (e : Push) : Line where
  indent := noGap
  label := none
  between := noGap
  content := some (.phrase e.phrase)
  trailing := e.gap
  comment := e.comment.map String.toList
  apart := nofun
  single := by
    rintro cs hcs
    obtain ⟨c, hc, rfl⟩ := Option.map_eq_some_iff.1 hcs
    exact e.single c hc

theorem chars_line (e : Push) : e.line.chars = e.chars := by
  have hword : "push ".toList = "push".toList ++ oneSpace.chars := by decide
  have hphrase : e.phrase.chars = "push ".toList ++ writeString e.text.toList := by
    rw [hword, List.append_assoc, ← Argument.chars_ofChar]
    rfl
  have hcomment : ((e.comment.map String.toList).map fun cs => ';' :: cs) =
      e.comment.map fun c => ';' :: c.toList := Option.map_map ..
  simp only [Line.chars, line, noGap, Option.map_none, Option.getD_none, List.nil_append,
    Option.map_some, Option.getD_some, Content.chars, hphrase, hcomment, chars]

theorem operand_phrase (e : Push) : e.phrase.operand = some (writeString e.text.toList) :=
  congrArg some (Argument.chars_ofChar e.text.toList)

variable (es : List Push)

theorem source_eq : Program.source (es.map line) = source es := by
  have hchars : Line.chars ∘ line = chars := funext chars_line
  rw [Program.source, List.map_map, hchars, source]

theorem labels_lines : Program.labels (es.map line) = [] := by
  rw [Program.labels, List.filterMap_map]
  exact List.filterMap_eq_nil_iff.2 fun _ _ => rfl

theorem slots_lines : (es.map line).filterMap Line.slots? = [] := by
  rw [List.filterMap_map]
  exact List.filterMap_eq_nil_iff.2 fun _ _ => rfl

theorem phrases_lines : Program.phrases (es.map line) = es.map phrase := by
  rw [Program.phrases, List.filterMap_map]
  exact List.filterMap_eq_map (f := phrase) ▸ rfl

theorem addLines_pushes : ∃ o, Outline.empty.addLines 1 (Text.lines (source es).toList) = .ok o ∧
    o.statements.toList.map (fun s => (s.opcode, s.operand)) =
      (es.map text).map fun s => (.pushString, some (writeString s.toList)) := by
  have hdistinct : (Program.labels (es.map line)).Nodup := by
    rw [labels_lines]
    exact List.nodup_nil
  have hslots : ∀ d ∈ (es.map line).filterMap Line.slots?, d.value ≤ 65535 := by
    rw [slots_lines]
    exact nofun
  obtain ⟨o, houtline, hcovers⟩ := Outline.addLines_source hdistinct hslots
  refine ⟨o, by rw [← source_eq]; exact houtline, ?_⟩
  rw [hcovers.statements, phrases_lines, List.map_map, List.map_map]
  exact List.map_congr_left fun e _ => congrArg _ e.operand_phrase

end Push

/-! ### The second pass over literals -/

def pushOf (strings : List String) (s : String) : Instruction :=
  ⟨.pushString, .stringIndex (UInt32.ofNat (strings.eraseDups.idxOf s)), 0⟩

/-- The second pass, from where the literals of `done` are read. Each string gets the place it has
among all of them. -/
theorem readOperands_literals (labels : OrderedMap String Nat) (todo : List String)
    {all done : List String} (hall : all = done ++ todo) (statements : List Pending)
    (h : statements.map (fun s => (s.opcode, s.operand)) =
      todo.map fun s => (.pushString, some (writeString s.toList)))
    {code : Array Instruction} {table : Array String}
    (hcode : code.toList = done.map (pushOf all)) (htable : table.toList = done.eraseDups) :
    ∃ code' table', readOperands labels code table statements = .ok (code', table') ∧
      code'.toList = all.map (pushOf all) ∧ table'.toList = all.eraseDups := by
  induction todo generalizing done statements code table with
  | nil =>
    obtain rfl : statements = [] := by simpa using h
    rw [List.append_nil] at hall
    exact ⟨code, table, rfl, hall ▸ hcode, hall ▸ htable⟩
  | cons s todo ih =>
    cases statements with
    | nil => cases h
    | cons p statements =>
      obtain ⟨hp, hmore⟩ := List.cons.inj h
      obtain ⟨hopcode, hoperand⟩ := Prod.mk.inj hp
      obtain ⟨htable', hplace⟩ := intern_spec htable s
      have hindex : all.eraseDups.idxOf s = (intern table s).2 := hall ▸ hplace todo
      have hi : p.instruction labels table = .ok (pushOf all s, (intern table s).1) := by
        rw [instruction_string (by rw [hopcode]; rfl) hoperand (readString?_writeString s.toList),
          String.ofList_toList, hopcode, pushOf, hindex]
      have hcode' : (code.push (pushOf all s)).toList = (done ++ [s]).map (pushOf all) := by
        simp [hcode]
      rw [List.append_cons] at hall
      obtain ⟨code', table', hrest, hends⟩ := ih hall statements hmore hcode' htable'
      refine ⟨code', table', ?_, hends⟩
      rw [readOperands, hi]
      exact hrest

/-- Instructions that push strings of their own table have no defect. The index of an operand is
the place of the string or, in a table that is too large for it, a smaller number. -/
theorem sound_pushes {strings : List String} (h : ∀ s ∈ strings, s.utf8ByteSize ≤ 65535) :
    unitDefect? (strings.map (pushOf strings)) strings.eraseDups = none := by
  refine CodeUnit.unitDefect?_eq_none_iff.2 ⟨fun s hs => h s (List.mem_eraseDups.1 hs), ?_⟩
  intro i hi
  obtain ⟨s, hs, rfl⟩ := List.mem_map.1 hi
  refine ⟨nofun, fun k hk => ?_⟩
  obtain rfl := Option.some.inj hk
  have hplace : strings.eraseDups.idxOf s < strings.eraseDups.length :=
    List.idxOf_lt_length_iff.2 (List.mem_eraseDups.2 hs)
  rw [UInt32.toNat_ofNat']
  exact Nat.lt_of_le_of_lt (Nat.mod_le _ _) hplace

/-! ### Whole sources -/

/-- Lines that push strings are assembled as one instruction a line, and a table that has each
string once, in the order in which they come first. -/
theorem assemble_pushes (es : List Push) :
    ∃ u, assemble (Push.source es) = .ok u ∧ u.code.size = es.length ∧
      u.strings.toList = (es.map Push.text).eraseDups ∧
      ∀ (i : Nat) (e : Push), es[i]? = some e →
        ∃ k : UInt32, u.code[i]? = some ⟨.pushString, .stringIndex k, 0⟩ ∧
          k = UInt32.ofNat (u.strings.toList.idxOf e.text) ∧
          (u.strings.size ≤ UInt32.size → u.strings[k.toNat]? = some e.text) := by
  obtain ⟨o, houtline, hstatements⟩ := Push.addLines_pushes es
  have hcode₀ : (#[] : Array Instruction).toList = [].map (pushOf (es.map Push.text)) := rfl
  have htable₀ : (#[] : Array String).toList = [].eraseDups := rfl
  obtain ⟨code, strings, hread, hcode, hstrings⟩ :=
    readOperands_literals o.labels (es.map Push.text) (List.nil_append _).symm
      o.statements.toList hstatements hcode₀ htable₀
  have hsound : unitDefect? code.toList strings.toList = none := by
    rw [hcode, hstrings]
    refine sound_pushes fun s hs => ?_
    obtain ⟨e, -, rfl⟩ := List.mem_map.1 hs
    exact e.short
  have hparts : CodeUnit.ofParts o.slotCount strings code =
      .ok ⟨o.slotCount, strings, code, hsound⟩ :=
    CodeUnit.ofParts_eq_ok_iff.2 ⟨rfl, rfl, rfl⟩
  refine ⟨⟨o.slotCount, strings, code, hsound⟩, ?_, ?_, hstrings, ?_⟩
  · simp only [assemble, assembleLines, houtline, hread, hparts, bind, Except.bind]
    rfl
  · simpa using congrArg List.length hcode
  · intro i e he
    refine ⟨UInt32.ofNat ((es.map Push.text).eraseDups.idxOf e.text), ?_, by rw [hstrings], ?_⟩
    · rw [← Array.getElem?_toList, hcode, List.getElem?_map, List.getElem?_map, he]
      rfl
    · intro hsize
      have hmem : e.text ∈ strings.toList := by
        rw [hstrings, List.mem_eraseDups]
        exact List.mem_map_of_mem (List.mem_of_getElem? he)
      have hplace := List.idxOf_lt_length_iff.2 hmem
      dsimp only at hsize ⊢
      rw [← hstrings, UInt32.toNat_ofNat_of_lt' (Nat.lt_of_lt_of_le hplace hsize),
        ← Array.getElem?_toList]
      exact List.getElem?_idxOf hmem

def Push.sample : Push where
  text := " a;\"b\\\n:#\r"
  gap := Push.oneSpace
  comment := some "\";"
  short := by decide
  single := by decide

example : Push.source [Push.sample, Push.sample] =
    "push \" a;\\\"b\\\\\\n:#\r\" ;\";\npush \" a;\\\"b\\\\\\n:#\r\" ;\";" := by
  decide

end WorldScript.Source
