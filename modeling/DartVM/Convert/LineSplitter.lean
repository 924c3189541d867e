import Mathlib.Data.List.Basic

namespace dart.line_splitter
open List

/-- A string by its code units. -/
abbrev Text := List Nat

/-- `_LF`. -/
def lf : Nat := 10

/-- `_CR`. -/
def cr : Nat := 13

/-- A string with a range that `RangeError.checkValidRange` accepts. -/
structure Slice where
  source : Text
  start : Nat
  stop : Nat
  valid : start ≤ stop ∧ stop ≤ source.length

/-- The substring of the range. -/
def Slice.units (self : Slice) : Text := (self.source.take self.stop).drop self.start

/-- The code units that follow, without the LF of a CR LF if they follow a CR. -/
def skip_lf (skip : Bool) (units : Text) : Text :=
  if skip ∧ units.head? = some lf then units.tail else units

abbrev Lines := List Text

/-- The variables of the loops of `convert` and `_addLines`: what takes the lines, whether `char` is
a CR, and the substring from `sliceStart` to `i`. -/
structure Scan (σ : Type) where
  lines : σ
  after_cr : Bool
  slice : Text

/-- One round of these loops. -/
def Scan.step {σ : Type} (add : σ → Text → σ) (self : Scan σ) (char : Nat) : Scan σ :=
  if char ≠ cr ∧ char ≠ lf then ⟨self.lines, false, self.slice ++ [char]⟩
  else if char ≠ cr ∧ self.after_cr then ⟨self.lines, false, []⟩
  else ⟨add self.lines self.slice, char == cr, []⟩

/-- The loop of `convert`. -/
def Scan.reads (self : Scan Lines) (units : Text) : Scan Lines :=
  units.foldl (step fun lines line => lines ++ [line]) self

/-- What `convert` returns after the loop. -/
def Scan.finish (self : Scan Lines) : Lines :=
  if self.slice ≠ [] then self.lines ++ [self.slice] else self.lines

def convert (data : Text) : Lines := (Scan.reads ⟨[], false, []⟩ data).finish

/-- `_LineSplitterSink`, with the lines that its `_sink` was given and how often that was closed. -/
structure Sink where
  lines : Lines := []
  closed : Nat := 0
  carry : Option Text := none
  multi_carry : Option Text := none
  skip_leading_lf : Bool := false

namespace Sink
variable (self : Sink)

/-- `_useCarry`, where `_multiCarry!` may fail. -/
def use_carry (carry continuation : Text) : Option (Text × Sink) :=
  if carry ≠ [] then some (carry ++ continuation, { self with carry := none })
  else self.multi_carry.map fun parts =>
    (parts ++ continuation, { self with carry := none, multi_carry := some [] })

/-- `_addCarry`. -/
def add_carry (existing_carry new_carry : Text) : Sink :=
  let multi_carry := self.multi_carry.getD []
  if existing_carry ≠ [] then
    { self with multi_carry := some (multi_carry ++ existing_carry ++ new_carry), carry := some [] }
  else { self with multi_carry := some (multi_carry ++ new_carry) }

/-- `_sink.add(slice)`, with the carry if there is one. -/
def add_line (slice : Text) : Option Sink :=
  match self.carry with
  | none => some { self with lines := self.lines ++ [slice] }
  | some carry => (self.use_carry carry slice).map fun used => { used.2 with lines := self.lines ++ [used.1] }

/-- What becomes of the end of a slice that is not the last. -/
def hold_back (end_slice : Text) : Sink :=
  match self.carry with
  | none => { self with carry := some end_slice }
  | some carry => self.add_carry carry end_slice

/-- `_addLines`; the local `carry` is always the field. -/
def add_lines (lines : Text) (is_last : Bool) : Option Sink :=
  let loop := lines.foldl (Scan.step fun sink line => sink.bind (add_line · line)) ⟨some self, false, []⟩
  loop.lines.bind fun sink =>
    if loop.slice ≠ [] then
      if is_last then sink.add_line loop.slice else some (sink.hold_back loop.slice)
    else some { sink with skip_leading_lf := loop.after_cr }

def close : Option Sink :=
  (if self.carry.isSome then self.add_line [] else some self).map fun sink =>
    { sink with closed := sink.closed + 1 }

/-- `addSlice`. -/
def add_slice (chunk : Slice) (is_last : Bool) : Option Sink :=
  let added :=
    if chunk.units ≠ [] then
      { self with skip_leading_lf := false }.add_lines (skip_lf self.skip_leading_lf chunk.units) is_last
    else some self
  if is_last then added.bind close else added

/-- One slice after the other, none of them the last. -/
def add_slices (chunks : List Slice) : Option Sink :=
  chunks.foldlM (add_slice · · false) self

end Sink

/-- `_LineSplitIterator.moveNext`: the line from `_lineStart` on, and what is left up to `_end`. -/
def move_next : Text → Text → Option (Text × Text)
  | line, [] => if line ≠ [] then some (line, []) else none
  | line, char :: rest =>
    if char ≠ cr then
      if char ≠ lf then move_next (line ++ [char]) rest else some (line, rest)
    else some (line, skip_lf true rest)

/-- A line ends with LF, CR LF, a CR before no LF, or the end of the string, which ends no empty line. -/
def Terminates (line terminator rest : Text) : Prop :=
  (cr ∉ line ∧ lf ∉ line) ∧ (terminator = [lf] ∨ terminator = [cr, lf] ∨ terminator = [cr] ∧ rest.head? ≠ some lf ∨
    terminator = [] ∧ rest = [] ∧ line ≠ [])

variable {line rest pending slice : Text} {next : Text × Text} {scan : Scan Lines} {lines : Lines} {after_cr : Bool}

/-- The iterator splits off a line and what ends it. -/
lemma exists_terminator (h : move_next line rest = some next) (hfree : cr ∉ line ∧ lf ∉ line) :
    ∃ terminator, line ++ rest = next.1 ++ terminator ++ next.2 ∧ Terminates next.1 terminator next.2 := by
  fun_induction move_next line rest with
  | case1 line hne =>
    cases h
    exact ⟨[], by simp, hfree, .inr (.inr (.inr ⟨rfl, rfl, hne⟩))⟩
  | case2 => cases h
  | case3 line char rest hcr hlf ih =>
    simpa using ih h (by simp [hfree, hcr.symm, hlf.symm])
  | case4 line char rest _ hlf =>
    cases h
    exact ⟨[lf], by simp [not_not.mp hlf], hfree, .inl rfl⟩
  | case5 line char rest hcr =>
    cases h
    rw [not_not.mp hcr, skip_lf]
    split_ifs with hhead
    · obtain ⟨rest, rfl⟩ := head?_eq_some_iff.mp hhead.2
      exact ⟨[cr, lf], by simp, hfree, .inr (.inl rfl)⟩
    · exact ⟨[cr], by simp, hfree, .inr (.inr (.inl ⟨rfl, by simpa using hhead⟩))⟩

lemma move_next_shrinks (h : move_next [] rest = some next) : next.2.length < rest.length := by
  obtain ⟨terminator, heq, -, hterminator⟩ := exists_terminator h (by simp)
  have hpos : next.1 ++ terminator ≠ [] := by
    rcases hterminator with rfl | rfl | ⟨rfl, -⟩ | ⟨rfl, -, hne⟩ <;> simp [*]
  have := length_pos_iff.mpr hpos
  rw [← nil_append rest, heq, length_append]
  omega

/-- The lines of `_LineSplitIterable`. -/
def lines_from (rest : Text) : Lines :=
  match _h : move_next [] rest with
  | none => []
  | some next => next.1 :: lines_from next.2
termination_by rest.length
decreasing_by exact move_next_shrinks _h

def split (lines : Slice) : Lines := lines_from lines.units

/-- The lines of a string with what ended them. -/
inductive Ended : Text → List (Text × Text) → Prop
  | nil : Ended [] []
  | cons {line terminator rest : Text} {ended : List (Text × Text)}
      (hends : Terminates line terminator rest) (h : Ended rest ended) :
      Ended (line ++ terminator ++ rest) ((line, terminator) :: ended)

lemma Ended.join {data : Text} {ended : List (Text × Text)} (h : Ended data ended) :
    (ended.flatMap fun e => e.1 ++ e.2) = data ∧ ∀ line ∈ ended.map Prod.fst, cr ∉ line ∧ lf ∉ line := by
  induction h with
  | nil => simp
  | cons hends h ih =>
    rw [flatMap_cons, ih.1]
    exact ⟨rfl, forall_mem_cons.mpr ⟨hends.1, ih.2⟩⟩

open Scan

/-- Once the LF of a CR LF is gone, the loop goes on as if there had been no CR. -/
lemma reads_skip_lf (hnil : after_cr → slice = []) (hne : rest ≠ []) :
    reads ⟨lines, false, slice⟩ (skip_lf after_cr rest) = reads ⟨lines, after_cr, slice⟩ rest := by
  obtain ⟨char, rest, rfl⟩ := exists_cons_of_ne_nil hne
  cases after_cr with
  | false => simp [skip_lf]
  | true =>
    obtain rfl : slice = [] := hnil rfl
    by_cases hlf : char = lf
    · simp [skip_lf, reads, step, hlf, show lf ≠ cr by decide]
    · rw [skip_lf, if_neg (by simp [hlf]), reads, reads, foldl_cons, foldl_cons, step, step]
      split_ifs <;> simp_all

/-- The loop of `convert` adds the line that the iterator gives. -/
lemma finish_move_next (h : move_next line rest = some next) (lines : Lines) :
    (reads ⟨lines, false, line⟩ rest).finish = (reads ⟨lines ++ [next.1], false, []⟩ next.2).finish := by
  fun_induction move_next line rest with
  | case1 line hne =>
    cases h
    simp [reads, finish, hne]
  | case2 => cases h
  | case3 line char rest hcr hlf ih =>
    rw [← ih h, reads, foldl_cons, step, if_pos ⟨hcr, hlf⟩]
    rfl
  | case4 line char rest hcr hlf =>
    cases h
    rw [reads, foldl_cons, step, if_neg (by simp [hlf]), if_neg (by simp), beq_false_of_ne hcr]
    rfl
  | case5 line char rest hcr =>
    cases h
    rw [reads, foldl_cons, step, if_neg (by simp [hcr]), if_neg (by simp), not_not.mp hcr]
    by_cases hne : rest = []
    · simp [hne, skip_lf, reads, finish]
    · exact congrArg finish (reads_skip_lf (fun _ => rfl) hne).symm

lemma eq_nil_of_move_next (h : move_next line rest = none) : line = [] ∧ rest = [] := by
  fun_induction move_next line rest <;> simp_all

lemma exists_ended (data : Text) (lines : Lines) : ∃ ended, Ended data ended ∧
    lines_from data = ended.map Prod.fst ∧ (reads ⟨lines, false, []⟩ data).finish = lines ++ ended.map Prod.fst := by
  fun_induction lines_from data generalizing lines with
  | case1 data hnone =>
    obtain ⟨-, rfl⟩ := eq_nil_of_move_next hnone
    exact ⟨[], .nil, rfl, (append_nil _).symm⟩
  | case2 data next hnext ih =>
    obtain ⟨terminator, heq, hends⟩ := exists_terminator hnext (by simp)
    obtain ⟨ended, hended, hlines, hfinish⟩ := ih (lines ++ [next.1])
    exact ⟨_, heq ▸ hended.cons hends, by rw [hlines]; rfl, by rw [finish_move_next hnext, hfinish]; simp⟩

namespace Sink
variable {self : Sink}

/-- The sink stands where the loop of `convert` does after the same code units; what it holds back
is in one of two places. -/
structure Holds (sink : Sink) (scan : Scan Lines) : Prop where
  lines_eq : sink.lines = scan.lines
  closed_eq : sink.closed = 0
  skip_eq : sink.skip_leading_lf = scan.after_cr
  slice_eq : scan.slice = sink.carry.getD [] ++ sink.multi_carry.getD []
  slice_ne : sink.carry ≠ none → scan.slice ≠ []
  multi_carry_eq : sink.carry ≠ some [] → sink.multi_carry.getD [] = []
  slice_nil : scan.after_cr → scan.slice = []

lemma holds_nil (hcarry : self.carry = none) (hmulti : self.multi_carry.getD [] = []) (hclosed : self.closed = 0) :
    self.Holds ⟨self.lines, self.skip_leading_lf, []⟩ :=
  ⟨rfl, hclosed, rfl, by rw [hcarry, hmulti]; rfl, fun h => absurd hcarry h, fun _ => hmulti, fun _ => rfl⟩

lemma add_line_spec (h : self.Holds ⟨lines, after_cr, pending⟩) (slice : Text) :
    ∃ sink, self.add_line slice = some sink ∧ sink.Holds ⟨lines ++ [pending ++ slice], after_cr, []⟩ := by
  obtain ⟨_, _, carry, multi, _⟩ := self
  obtain ⟨rfl, rfl, rfl, rfl, hne, hmulti, -⟩ := h
  -- Nothing is held back, or it is in `multi_carry`, or in `carry`.
  rcases carry with _ | _ | ⟨unit, carry⟩
  · have hnil : multi.getD [] = [] := hmulti nofun
    rw [hnil]
    exact ⟨_, rfl, holds_nil rfl hnil rfl⟩
  · cases multi with
    | none => exact absurd rfl (hne nofun)
    | some parts => exact ⟨_, rfl, holds_nil rfl rfl rfl⟩
  · have hnil : multi.getD [] = [] := hmulti (by simp)
    rw [hnil, append_nil]
    exact ⟨_, rfl, holds_nil rfl hnil rfl⟩

lemma hold_back_spec (h : self.Holds ⟨lines, false, pending⟩) (hne : slice ≠ []) :
    (self.hold_back slice).Holds ⟨lines, false, pending ++ slice⟩ := by
  obtain ⟨_, _, carry, multi, _⟩ := self
  obtain ⟨rfl, rfl, hskip, rfl, -, hmulti, -⟩ := h
  have hslice := append_ne_nil_of_right_ne_nil (carry.getD [] ++ multi.getD []) hne
  rcases carry with _ | _ | ⟨unit, carry⟩
  · have hnil : multi.getD [] = [] := hmulti nofun
    exact ⟨rfl, rfl, hskip, by simp [hold_back, hnil], fun _ => hslice, fun _ => hnil, nofun⟩
  · exact ⟨rfl, rfl, hskip, rfl, fun _ => hslice, fun h => absurd rfl h, nofun⟩
  · have hnil : multi.getD [] = [] := hmulti (by simp)
    exact ⟨rfl, rfl, hskip, by simp [hold_back, add_carry, hnil], fun _ => hslice, fun h => absurd rfl h, nofun⟩

lemma close_spec (h : self.Holds scan) :
    ∃ sink, self.close = some sink ∧ sink.lines = scan.finish ∧ sink.closed = 1 := by
  obtain ⟨sink, hadd, hsink⟩ := add_line_spec h []
  cases hcarry : self.carry with
  | none =>
    have hnil : scan.slice = [] := by simp [h.slice_eq, hcarry, h.multi_carry_eq]
    exact ⟨_, by rw [close, hcarry]; rfl, by simp [finish, hnil, h.lines_eq], by simp [h.closed_eq]⟩
  | some carry =>
    have hne : scan.slice ≠ [] := h.slice_ne (by simp [hcarry])
    exact ⟨_, by rw [close, hcarry, hadd]; rfl, by simp [finish, hne, hsink.lines_eq], by simp [hsink.closed_eq]⟩

/-- The loop of `_addLines` does what that of `convert` does, with what is held back before its slice. -/
def Simulates (loop : Scan (Option Sink)) (scan : Scan Lines) : Prop :=
  ∃ sink lines pending, loop.lines = some sink ∧ sink.Holds ⟨lines, false, pending⟩ ∧
    scan = ⟨lines, loop.after_cr, pending ++ loop.slice⟩ ∧ (loop.after_cr → scan.slice = [])

lemma Simulates.step {loop : Scan (Option Sink)} (h : Simulates loop scan) (char : Nat) :
    Simulates (loop.step (fun sink line => sink.bind (add_line · line)) char)
      (scan.step (fun lines line => lines ++ [line]) char) := by
  obtain ⟨sink, lines, pending, hloop, hsink, rfl, hcr⟩ := h
  simp only [Scan.step]
  split_ifs with hother hskip
  · exact ⟨sink, lines, pending, hloop, hsink, by simp, by simp⟩
  · obtain ⟨rfl, -⟩ := append_eq_nil_iff.mp (hcr hskip.2)
    exact ⟨sink, lines, [], hloop, hsink, rfl, by simp⟩
  · obtain ⟨sink', hadd, hsink'⟩ := add_line_spec hsink loop.slice
    exact ⟨sink', _, [], by simp [hloop, hadd], hsink', rfl, by simp⟩

lemma add_lines_spec (h : self.Holds ⟨lines, false, pending⟩) (units : Text) (is_last : Bool) : ∃ sink last,
    self.add_lines units is_last = some sink ∧ sink.Holds last ∧ last.finish =
    (reads ⟨lines, false, pending⟩ units).finish ∧ (is_last = false → last = reads ⟨lines, false, pending⟩ units) := by
  have hstart : Simulates ⟨some self, false, []⟩ ⟨lines, false, pending⟩ := ⟨self, _, _, rfl, h, by simp, by simp⟩
  obtain ⟨sink, lines, pending, hloop, hsink, hscan, hnil⟩ :=
    foldl_rel hstart fun char _ _ _ h => h.step char
  rw [add_lines, reads, hscan]
  rw [hscan] at hnil
  generalize units.foldl (Scan.step _) ⟨some self, false, []⟩ = loop at *
  simp only [hloop, Option.bind_some]
  -- The end of the slice ends no line: the last slice gives it on, the others hold it back.
  split_ifs with hne hlast
  · obtain ⟨sink', hadd, hsink'⟩ := add_line_spec hsink loop.slice
    exact ⟨sink', _, hadd, hsink', by simp [finish, hne], by simp [hlast]⟩
  · have hother : loop.after_cr = false := by simp_all
    exact ⟨_, _, rfl, hother ▸ hold_back_spec hsink hne, rfl, fun _ => rfl⟩
  · rw [not_not.mp hne, append_nil] at hnil ⊢
    exact ⟨_, ⟨lines, loop.after_cr, pending⟩, rfl, ⟨hsink.1, hsink.2, rfl, hsink.4, hsink.5, hsink.6, hnil⟩, rfl,
      fun _ => rfl⟩

lemma add_slice_spec (h : self.Holds scan) (chunk : Slice) :
    (∃ sink, self.add_slice chunk false = some sink ∧ sink.Holds (scan.reads chunk.units)) ∧
    ∃ sink, self.add_slice chunk true = some sink ∧ sink.lines = (scan.reads chunk.units).finish ∧ sink.closed = 1 := by
  by_cases hne : chunk.units = []
  · simpa [add_slice, hne] using ⟨h, close_spec h⟩
  have hreset : { self with skip_leading_lf := false }.Holds ⟨scan.lines, false, scan.slice⟩ :=
    { h with skip_eq := rfl, slice_nil := by simp }
  have hadd := add_lines_spec hreset (skip_lf scan.after_cr chunk.units)
  rw [reads_skip_lf h.slice_nil hne] at hadd
  obtain ⟨next, last, hnext, hafter, -, hlast⟩ := hadd false
  obtain ⟨next', last', hnext', hafter', hfinish, -⟩ := hadd true
  obtain ⟨closed, hclose, hlines, hclosed⟩ := close_spec hafter'
  simp only [add_slice, ne_eq, hne, not_false_iff, if_true, h.skip_eq, hnext, hnext', Option.bind_some, hclose]
  exact ⟨⟨next, rfl, hlast rfl ▸ hafter⟩, closed, rfl, hlines.trans hfinish, hclosed⟩

lemma add_slices_spec (h : self.Holds scan) (chunks : List Slice) :
    ∃ sink, self.add_slices chunks = some sink ∧ sink.Holds (scan.reads (chunks.flatMap Slice.units)) := by
  induction chunks generalizing self scan with
  | nil => exact ⟨self, rfl, h⟩
  | cons chunk chunks ih =>
    obtain ⟨sink, hadd, hsink⟩ := (add_slice_spec h chunk).1
    obtain ⟨last, hlast, hafter⟩ := ih hsink
    refine ⟨last, by simpa [add_slices, hadd] using hlast, ?_⟩
    rwa [flatMap_cons, reads, foldl_append]

end Sink

open Sink

/-- However a string is cut into slices, the sink gives on its lines and is closed once; an iterator
over a range gives the same lines, and the lines with what ended them make up the string. -/
theorem lines_of_every_cut (chunks : List Slice) (last range : Slice) (data : Text) :
    (∃ sink, (add_slices {} chunks).bind close = some sink ∧
      sink.lines = convert (chunks.flatMap Slice.units) ∧ sink.closed = 1) ∧
    (∃ sink, ((add_slices {} chunks).bind (add_slice · last true)) = some sink ∧
      sink.lines = convert (chunks.flatMap Slice.units ++ last.units) ∧ sink.closed = 1) ∧
    split range = convert range.units ∧
    ∃ ended, Ended data ended ∧ convert data = ended.map Prod.fst ∧ (ended.flatMap fun e => e.1 ++ e.2) = data ∧
      ∀ line ∈ convert data, cr ∉ line ∧ lf ∉ line := by
  have hstart : Holds {} ⟨[], false, []⟩ := by constructor <;> simp
  obtain ⟨sink, hadd, hsink⟩ := add_slices_spec hstart chunks
  have hlast := (add_slice_spec hsink last).2
  rw [reads, reads, ← foldl_append] at hlast
  obtain ⟨ended, hended, -, hmap⟩ := exists_ended data []
  obtain ⟨hjoin, hfree⟩ := hended.join
  obtain ⟨_, -, hsplit, hconv⟩ := exists_ended range.units []
  rw [hadd, show convert data = ended.map Prod.fst from hmap]
  exact ⟨close_spec hsink, hlast, hsplit.trans hconv.symm, ended, hended, rfl, hjoin, hfree⟩

end dart.line_splitter
