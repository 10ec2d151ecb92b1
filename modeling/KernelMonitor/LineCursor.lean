import KernelMonitor.TextLines

/-! # The cursor of `km_read_line`

`km_read_line` with its pointers: the text lies in memory before its NUL, the cursor is an
index into that memory, and the line goes into the caller's buffer. `readLine` forgets where
the text lies; here it is shown what a whole loop leaves in the cursor and in the buffer.
-/

namespace KernelMonitor

open Library

/-! ## The lines of a text -/

/-- The pieces between newlines. Nothing behind the last newline is no line. -/
def textLines (s : Bytes) : List Bytes :=
  if (s.splitOn 10).getLast? = some [] then (s.splitOn 10).dropLast else s.splitOn 10

/-- Every text is empty, one line without a newline, or a line before more text. -/
@[elab_as_elim]
theorem text_induction {P : Bytes → Prop} (empty : P [])
    (last : ∀ line : Bytes, 10 ∉ line → line ≠ [] → P line)
    (terminated : ∀ line rest : Bytes, 10 ∉ line → P rest → P (line ++ 10 :: rest))
    (s : Bytes) : P s := by
  induction size : s.length using Nat.strong_induction_on generalizing s with
  | _ n ih =>
      by_cases newline : 10 ∈ s
      · obtain ⟨line, rest, rfl, single⟩ := List.eq_append_cons_of_mem newline
        exact terminated line rest single (ih rest.length (by simp at size; omega) rest rfl)
      · by_cases blank : s = []
        · exact blank ▸ empty
        · exact last s newline blank

section Lines

variable {line rest : Bytes}

theorem textLines_nil : textLines [] = [] := rfl

theorem textLines_last (single : 10 ∉ line) (nonempty : line ≠ []) : textLines line = [line] := by
  simp [textLines, List.splitOn_eq_singleton single, nonempty]

theorem textLines_terminated (single : 10 ∉ line) :
    textLines (line ++ 10 :: rest) = line :: textLines rest := by
  have pieces : (line ++ 10 :: rest).splitOn 10 = line :: rest.splitOn 10 :=
    List.splitOn_append_cons_self_of_not_mem single rest
  obtain ⟨piece, more, split⟩ := List.exists_cons_of_ne_nil (List.splitOn_ne_nil 10 rest)
  have ending : (line :: piece :: more).getLast? = (piece :: more).getLast? := rfl
  unfold textLines
  rw [pieces, split, ending]
  split <;> rfl

end Lines

/-- The loop reads every line once, in order, each cut to the buffer. -/
theorem readLines_textLines {outSize : Nat} (room : outSize ≠ 0) (s : Bytes) :
    readLines s outSize = (textLines s).map fun line => line.take (outSize - 1) := by
  induction s using text_induction with
  | empty => exact readLines_nil
  | last line single nonempty =>
      rw [readLines_last single nonempty room, textLines_last single nonempty, List.map_singleton]
  | terminated line rest single ih =>
      rw [readLines_terminated single room, textLines_terminated single, List.map_cons, ih]

/-! ## The call -/

/-- What a `memcpy` to the start of a buffer and a NUL behind it leave there. -/
def storeString (out s : Bytes) : Bytes := s ++ 0 :: out.drop (s.length + 1)

/-- `km_read_line` on memory: the cursor and the buffer afterwards, `none` for `false`. -/
def readLineAt (mem : Bytes) (cursor : Nat) (out : Bytes) : Option (Nat × Bytes) :=
  let p := cString (mem.drop cursor)
  if out.length = 0 ∨ p = [] then none
  else
    let nl := strchr p 10
    let len := match nl with
      | some nl => nl
      | none => p.length
    let copy := if len < out.length - 1 then len else out.length - 1
    let next := match nl with
      | some nl => cursor + nl + 1
      | none => cursor + len
    some (next, storeString out (p.take copy))

section Call

variable {mem out line rest : Bytes} {cursor : Nat}

theorem cString_free (s : Bytes) : 0 ∉ cString s := by
  intro nul
  simpa using List.mem_takeWhile_imp nul

/-- A text ends where the memory does, or at a NUL. -/
theorem cString_split (s : Bytes) : ∃ tail, s = cString s ++ tail ∧ ∀ c ∈ tail.head?, c = 0 := by
  refine ⟨s.dropWhile (· ≠ 0), (List.takeWhile_append_dropWhile).symm, fun c first => ?_⟩
  have stops := List.head?_dropWhile_not (fun c : UInt8 => decide (c ≠ 0)) s
  rw [Option.mem_def.mp first] at stops
  simpa using stops

theorem cString_append {s tail : Bytes} (free : 0 ∉ s) (stop : ∀ c ∈ tail.head?, c = 0) :
    cString (s ++ tail) = s := by
  apply takeWhile_append_stop
  · intro c member
    have differs : c ≠ 0 := fun nul => free (nul ▸ member)
    simpa using differs
  · intro c first
    simp [stop c first]

/-- What lies behind a front part of the text the cursor points to. -/
theorem cString_drop {front : Bytes} (here : cString (mem.drop cursor) = front ++ rest) :
    cString (mem.drop (cursor + front.length)) = rest := by
  obtain ⟨tail, parts, stop⟩ := cString_split (mem.drop cursor)
  rw [here, List.append_assoc] at parts
  have free : 0 ∉ rest := by
    have whole := cString_free (mem.drop cursor)
    rw [here] at whole
    exact fun nul => whole (List.mem_append_right front nul)
  rw [← List.drop_drop, parts, List.drop_left]
  exact cString_append free stop

theorem readLineAt_nil (here : cString (mem.drop cursor) = []) :
    readLineAt mem cursor out = none := by
  simp [readLineAt, here]

theorem readLineAt_terminated (here : cString (mem.drop cursor) = line ++ 10 :: rest)
    (single : 10 ∉ line) (room : 1 ≤ out.length) :
    readLineAt mem cursor out =
      some (cursor + (line ++ [10]).length, storeString out (line.take (out.length - 1))) := by
  have nonzero : out.length ≠ 0 := by omega
  have copied : (line ++ 10 :: rest).take
      (if line.length < out.length - 1 then line.length else out.length - 1) =
        line.take (out.length - 1) := by
    split
    · rw [List.take_left, List.take_of_length_le (by omega)]
    · exact List.take_append_of_le_length (by omega)
  simp [readLineAt, here, nonzero, strchr_append single, copied, Nat.add_assoc]

theorem readLineAt_last (here : cString (mem.drop cursor) = line) (single : 10 ∉ line)
    (nonempty : line ≠ []) (room : 1 ≤ out.length) :
    readLineAt mem cursor out =
      some (cursor + line.length, storeString out (line.take (out.length - 1))) := by
  have nonzero : out.length ≠ 0 := by omega
  have absent : strchr line 10 = none := List.idxOf?_eq_none_iff.mpr single
  have copied : line.take
      (if line.length < out.length - 1 then line.length else out.length - 1) =
        line.take (out.length - 1) := by
    split
    · rw [List.take_length, List.take_of_length_le (by omega)]
    · rfl
  simp [readLineAt, here, nonzero, nonempty, absent, copied]

/-- `readLine` is this call, seen from the text: the line that was copied, and the text
    that is left. -/
theorem readLineAt_readLine (mem : Bytes) (cursor : Nat) (out : Bytes) :
    (readLineAt mem cursor out).map (fun call => (cString call.2, cString (mem.drop call.1))) =
      readLine (cString (mem.drop cursor)) out.length := by
  by_cases empty : out.length = 0
  · simp [readLineAt, readLine, empty]
  have room : 1 ≤ out.length := by omega
  have copied (line : Bytes) (free : 0 ∉ line) :
      cString (storeString out (line.take (out.length - 1))) = line.take (out.length - 1) :=
    cString_append (fun nul => free (List.mem_of_mem_take nul)) (by simp)
  have free := cString_free (mem.drop cursor)
  generalize here : cString (mem.drop cursor) = s at free ⊢
  induction s using text_induction with
  | empty => simp [readLineAt_nil here, readLine]
  | last line single nonempty =>
      have left : cString (mem.drop (cursor + line.length)) = [] :=
        cString_drop (here.trans (List.append_nil line).symm)
      rw [readLineAt_last here single nonempty room, readLine_last single nonempty empty,
        Option.map_some, copied line free, left]
  | terminated line rest single _ =>
      have left : cString (mem.drop (cursor + (line ++ [10]).length)) = rest :=
        cString_drop (here.trans (by simp))
      have lineFree : 0 ∉ line := fun nul => free (List.mem_append_left _ nul)
      rw [readLineAt_terminated here single room, readLine_terminated single empty,
        Option.map_some, copied line lineFree, left]

theorem readLineAt_advances {next : Nat} {copy : Bytes}
    (read : readLineAt mem cursor out = some (next, copy)) :
    cursor < next ∧ next ≤ mem.length := by
  have room : 1 ≤ out.length := by
    by_contra short
    have empty : out.length = 0 := by omega
    simp [readLineAt, empty] at read
  have inside : cursor + (cString (mem.drop cursor)).length ≤ max cursor mem.length := by
    have prefixed := (List.takeWhile_prefix (p := fun c : UInt8 => decide (c ≠ 0))
      (l := mem.drop cursor)).length_le
    unfold cString
    simp only [List.length_drop] at prefixed
    omega
  generalize here : cString (mem.drop cursor) = s at inside
  induction s using text_induction with
  | empty => simp [readLineAt_nil here] at read
  | last line single nonempty =>
      have positive := List.length_pos_iff.mpr nonempty
      rw [readLineAt_last here single nonempty room] at read
      cases read
      omega
  | terminated line rest single _ =>
      rw [readLineAt_terminated here single room] at read
      cases read
      simp only [List.length_append, List.length_cons, List.length_nil] at inside ⊢
      omega

end Call

/-! ## The loop -/

/-- The calls of a `while (km_read_line(...))` loop: the cursor and the buffer each leaves. -/
def lineCalls (mem : Bytes) (cursor : Nat) (out : Bytes) : List (Nat × Bytes) :=
  match _read : readLineAt mem cursor out with
  | none => []
  | some (next, copy) => (next, copy) :: lineCalls mem next copy
termination_by mem.length - cursor
decreasing_by
  have advances := readLineAt_advances _read
  omega

section Loop

variable {mem out : Bytes} {cursor : Nat}

theorem lineCalls_of_none (ended : readLineAt mem cursor out = none) :
    lineCalls mem cursor out = [] := by
  rw [lineCalls]
  split
  · rfl
  · rename_i next copy read
    simp [ended] at read

theorem lineCalls_of_some {next : Nat} {copy : Bytes}
    (read : readLineAt mem cursor out = some (next, copy)) :
    lineCalls mem cursor out = (next, copy) :: lineCalls mem next copy := by
  rw [lineCalls]
  split
  · rename_i none
    simp [read] at none
  · rename_i next' copy' read'
    cases read.symm.trans read'
    rfl

theorem storeString_length {s : Bytes} (fits : s.length + 1 ≤ out.length) :
    (storeString out s).length = out.length := by
  simp only [storeString, List.length_append, List.length_cons, List.length_drop]
  omega

/-- The call left `line` in a buffer of this size, cut to fit, and the cursor inside the
    text. -/
def LeavesLine (textEnd outSize : Nat) (line : Bytes) (call : Nat × Bytes) : Prop :=
  call.1 ≤ textEnd ∧ call.2.length = outSize ∧
    ∃ rest, call.2 = line.take (outSize - 1) ++ 0 :: rest

theorem leavesLine_store {line : Bytes} {next textEnd outSize : Nat} (inside : next ≤ textEnd)
    (size : out.length = outSize) (room : 1 ≤ outSize) :
    LeavesLine textEnd outSize line (next, storeString out (line.take (outSize - 1))) := by
  refine ⟨inside, ?_, out.drop ((line.take (outSize - 1)).length + 1), rfl⟩
  rw [storeString_length, size]
  rw [List.length_take, size]
  omega

/-- From wherever the cursor stands, the calls leave the lines that are ahead of it, and the
    last of them leaves the cursor on the NUL. -/
theorem lineCalls_lines {s : Bytes} {textEnd outSize : Nat} (room : 1 ≤ outSize)
    (here : cString (mem.drop cursor) = s) (ends : cursor + s.length = textEnd)
    (size : out.length = outSize) :
    List.Forall₂ (LeavesLine textEnd outSize) (textLines s) (lineCalls mem cursor out) ∧
      ((lineCalls mem cursor out).map Prod.fst).getLastD cursor = textEnd := by
  induction s using text_induction generalizing cursor out with
  | empty =>
      rw [lineCalls_of_none (readLineAt_nil here)]
      exact ⟨.nil, ends⟩
  | last line single nonempty =>
      have read := readLineAt_last here single nonempty (size ▸ room)
      have ahead : cString (mem.drop (cursor + line.length)) = [] :=
        cString_drop (here.trans (List.append_nil line).symm)
      rw [lineCalls_of_some read, lineCalls_of_none (readLineAt_nil ahead), size,
        textLines_last single nonempty]
      exact ⟨.cons (leavesLine_store ends.le size room) .nil, ends⟩
  | terminated line rest single ih =>
      have read := readLineAt_terminated here single (size ▸ room)
      have ahead : cString (mem.drop (cursor + (line ++ [10]).length)) = rest :=
        cString_drop (here.trans (by simp))
      have further : cursor + (line ++ [10]).length + rest.length = textEnd := by
        simp only [List.length_append, List.length_cons, List.length_nil] at ends ⊢
        omega
      have left : LeavesLine textEnd outSize line _ :=
        leavesLine_store (Nat.le.intro further) size room
      obtain ⟨later, stops⟩ := ih ahead further (left.2.1)
      rw [lineCalls_of_some read, textLines_terminated single, size]
      exact ⟨.cons left later, by rwa [List.map_cons, List.getLastD_cons]⟩

theorem readLineAt_length {next : Nat} {copy : Bytes}
    (read : readLineAt mem cursor out = some (next, copy)) : copy.length = out.length := by
  unfold readLineAt at read
  dsimp only at read
  split at read
  · cases read
  · rename_i some
    rw [not_or] at some
    obtain ⟨_, rfl⟩ := Prod.mk.inj (Option.some.inj read)
    have short (len : Nat) : ((cString (mem.drop cursor)).take
        (if len < out.length - 1 then len else out.length - 1)).length ≤ out.length - 1 := by
      rw [List.length_take]
      split <;> omega
    exact storeString_length (Nat.add_le_of_le_sub (by omega) (short _))

end Loop

/-- A loop over `km_read_line` makes one call for each line of the text. -/
theorem read_line_loop {text : Bytes} (free : 0 ∉ text) (behind : Bytes) {out : Bytes}
    (room : 1 ≤ out.length) :
    let calls := lineCalls (text ++ 0 :: behind) 0 out
    List.Forall₂ (LeavesLine text.length out.length) (textLines text) calls ∧
      (calls.map Prod.fst).getLastD 0 = text.length := by
  have here : cString ((text ++ 0 :: behind).drop 0) = text := cString_append_nul free behind
  exact lineCalls_lines room here (Nat.zero_add _) rfl

/-- An empty line in between, one that is cut, and no newline at the end. -/
theorem read_line_loop_example :
    textLines (text "cpu\n\nintr") = [text "cpu", [], text "intr"] ∧
      List.Forall₂ (LeavesLine 9 3) [text "cpu", [], text "intr"]
        (lineCalls (text "cpu\n\nintr" ++ [0, 120]) 0 [1, 2, 3]) := by
  have lines : textLines (text "cpu\n\nintr") = [text "cpu", [], text "intr"] := by decide
  have free : 0 ∉ text "cpu\n\nintr" := by decide
  have room : 1 ≤ ([1, 2, 3] : Bytes).length := by decide
  exact ⟨lines, lines ▸ (read_line_loop free [120] room).1⟩

/-- The lines the parsers read from a text are those that a loop over memory leaves in its
    buffer, whatever lies in memory and in the buffer and wherever the cursor stands. -/
theorem line_loop_refined (mem : Bytes) (cursor : Nat) (out : Bytes) :
    (lineCalls mem cursor out).map (fun call => cString call.2) =
      readLines (cString (mem.drop cursor)) out.length := by
  fun_induction lineCalls mem cursor out with
  | case1 cursor out ended =>
      have call := readLineAt_readLine mem cursor out
      rw [ended, Option.map_none] at call
      rw [readLines_of_none call.symm, List.map_nil]
  | case2 cursor out next copy read ih =>
      have call := readLineAt_readLine mem cursor out
      rw [read, Option.map_some] at call
      rw [readLines_of_some call.symm, List.map_cons, ih, readLineAt_length read]

end KernelMonitor
