import Xv6.Construction.Grep
import Mathlib.Data.List.TakeWhile
import Mathlib.Tactic

namespace Xv6.Grep
open List
variable {c : BitVec 8} {pattern line first bytes rest m last : List (BitVec 8)} {chunk : List (BitVec 8)}
  {lines chunks later : List (List (BitVec 8))}

/-- The bytes have no newline and no zero byte. -/
def Plain (bytes : List (BitVec 8)) : Prop := ∀ c ∈ bytes, c ≠ newline ∧ c ≠ 0

theorem scan_plain (plain : Plain bytes) : scan line bytes = ([], line ++ bytes) := by
  induction bytes generalizing line with
  | nil => rw [append_nil, scan]
  | cons c bytes hyp =>
    obtain ⟨⟨other, nonzero⟩, plain⟩ := forall_mem_cons.mp plain
    rw [scan, if_neg other, if_neg nonzero, hyp plain, append_assoc, singleton_append]

theorem scan_first (plain : Plain first) :
    scan line (first ++ newline :: rest) = ((line ++ first) :: (scan [] rest).1, (scan [] rest).2) := by
  induction first generalizing line with
  | nil => rw [nil_append, scan, if_pos rfl, append_nil]
  | cons c first hyp =>
    obtain ⟨⟨other, nonzero⟩, plain⟩ := forall_mem_cons.mp plain
    rw [cons_append, scan, if_neg other, if_neg nonzero, hyp plain, append_assoc, singleton_append]

theorem scan_append (clear : ∀ c ∈ bytes, c ≠ 0) : scan line (bytes ++ rest) =
    ((scan line bytes).1 ++ (scan (scan line bytes).2 rest).1, (scan (scan line bytes).2 rest).2) := by
  induction bytes generalizing line with
  | nil => rfl
  | cons c bytes hyp =>
    obtain ⟨nonzero, clear⟩ := forall_mem_cons.mp clear
    rw [cons_append, scan, scan, if_neg nonzero, if_neg nonzero, hyp clear, hyp clear]
    split <;> rfl

theorem scan_lines (plain : ∀ line ∈ lines, Plain line) (tail : Plain last) :
    scan [] (lines.flatMap (fun line => line ++ [newline]) ++ last) = (lines, last) := by
  induction lines with
  | nil => exact scan_plain tail
  | cons line lines hyp =>
    obtain ⟨first, plain⟩ := forall_mem_cons.mp plain
    rw [flatMap_cons, append_assoc, append_assoc, singleton_append, scan_first first, hyp plain,
      nil_append]

section
variable (clear : ∀ c ∈ bytes, c ≠ 0)
include clear

theorem exists_first (found : newline ∈ bytes) : ∃ first rest, bytes = first ++ newline :: rest ∧ Plain first := by
  obtain ⟨first, rest, rfl, absent⟩ := eq_append_cons_of_mem found
  refine ⟨first, rest, rfl, fun c member => ⟨?_, clear c (mem_append_left _ member)⟩⟩
  rintro rfl
  exact absent member

theorem plain_of_notMem (absent : newline ∉ bytes) : Plain bytes := by
  intro c member
  refine ⟨?_, clear c member⟩
  rintro rfl
  exact absent member

theorem scan_rest (plain : Plain line) : Plain (scan line bytes).2 := by
  induction bytes generalizing line with
  | nil => exact plain
  | cons c bytes hyp =>
    obtain ⟨nonzero, clear⟩ := forall_mem_cons.mp clear
    rw [scan, if_neg nonzero]
    split
    case isTrue => exact hyp clear (forall_mem_nil _)
    case isFalse other => exact hyp clear (forall_mem_append.mpr ⟨plain, by simpa using ⟨other, nonzero⟩⟩)

end

theorem grep_plain (plain : Plain m) (absent : ∀ chunk ∈ chunks, Plain chunk) : grep pattern m chunks = [] := by
  induction chunks generalizing m with
  | nil => rfl
  | cons chunk chunks hyp =>
    obtain ⟨own, absent⟩ := forall_mem_cons.mp absent
    rw [grep, scan_plain (forall_mem_append.mpr ⟨plain, own⟩)]
    split
    · rfl
    · simpa [writes] using hyp (forall_mem_nil _) absent

theorem scan_kept (plain : Plain m) : scan [] (m ++ chunk) = scan m chunk := by
  rw [scan_append fun c member => (plain c member).2, scan_plain plain]
  rfl

section
variable (plain : Plain m) (clear : ∀ c ∈ chunk, c ≠ 0)
include plain clear

/-- A chunk with a newline leaves the rest of its last line in the buffer. -/
theorem grep_found (room : m.length + 1 ≠ bufSize) (found : newline ∈ chunk) : grep pattern m (chunk :: chunks) =
    writes pattern (scan m chunk).1 ++ grep pattern (scan m chunk).2 chunks := by
  obtain ⟨first, rest, rfl, first⟩ := exists_first clear found
  rw [grep, if_neg room, scan_kept plain, scan_first first]
  rfl

theorem grep_lost (absent : newline ∉ chunk) : (grep pattern m (chunk :: chunks)).length ≤
    (grep pattern [] chunks).length := by
  rw [grep, scan_kept plain, scan_plain (plain_of_notMem clear absent)]
  split
  · exact Nat.zero_le _
  · simp [writes]

end

/-- Chunks with newlines are treated as one buffer. -/
theorem grep_append (plain : Plain m) (clear : ∀ c ∈ chunks.flatten, c ≠ 0) (found : ∀ chunk ∈ chunks, newline ∈ chunk)
    (short : ∀ line ∈ (scan m chunks.flatten).1, line.length + 1 < bufSize) : grep pattern m (chunks ++ later) =
      writes pattern (scan m chunks.flatten).1 ++ grep pattern (scan m chunks.flatten).2 later := by
  induction chunks generalizing m with
  | nil => rfl
  | cons chunk chunks hyp =>
    obtain ⟨own, clear⟩ := forall_mem_append.mp clear
    obtain ⟨here, found⟩ := forall_mem_cons.mp found
    rw [flatten_cons, scan_append own] at short ⊢
    obtain ⟨lines, others⟩ := forall_mem_append.mp short
    have room : m.length + 1 ≠ bufSize := by
      obtain ⟨first, rest, rfl, plain⟩ := exists_first own here
      rw [scan_first plain] at lines
      have bound := lines _ (.head _)
      rw [length_append] at bound
      omega
    rw [cons_append, grep_found plain own room here, hyp (scan_rest own plain) clear found others]
    simp [writes]

theorem writes_empty : writes [] lines = lines.flatMap fun line => line ++ [newline] := by
  have all : ∀ line, match_ [] line = true := by
    intro line
    rw [match_, matchLoop.eq_def, matchhere]
    rfl
  simp [writes, all]

/-- What precedes the first newline is written with the first line. -/
theorem writes_scan (clear : ∀ c ∈ bytes, c ≠ 0) : (writes [] (scan line bytes).1).length =
    (writes [] (scan [] bytes).1).length + if newline ∈ bytes then line.length else 0 := by
  rw [writes_empty, writes_empty]
  by_cases found : newline ∈ bytes
  · rw [if_pos found]
    obtain ⟨first, rest, rfl, plain⟩ := exists_first clear found
    rw [scan_first plain, scan_first plain]
    simp
    omega
  · rw [scan_plain (plain_of_notMem clear found), scan_plain (plain_of_notMem clear found), if_neg found]
    rfl

/-- With an empty pattern at most the bytes of the lines are written. -/
theorem grep_le (plain : Plain m) (clear : ∀ c ∈ chunks.flatten, c ≠ 0) :
    (grep [] m chunks).length ≤ (writes [] (scan m chunks.flatten).1).length := by
  induction chunks generalizing m with
  | nil => exact Nat.zero_le _
  | cons chunk chunks hyp =>
    obtain ⟨own, clear⟩ := forall_mem_append.mp clear
    rw [flatten_cons, scan_append own]
    by_cases found : newline ∈ chunk
    · by_cases full : m.length + 1 = bufSize
      · rw [grep, if_pos full]
        exact Nat.zero_le _
      · have after := hyp (scan_rest own plain) clear
        rw [grep_found plain own full found]
        simp only [writes_empty, flatMap_append, length_append] at after ⊢
        omega
    · rw [scan_plain (plain_of_notMem own found), nil_append, writes_scan clear]
      exact (grep_lost plain own found).trans ((hyp (forall_mem_nil _) clear).trans (Nat.le_add_right ..))

/-- After the chunks with newlines the first chunk without one is lost, which shows if a newline follows. -/
theorem grep_split (clear : ∀ c ∈ (chunks ++ later).flatten, c ≠ 0) (found : ∀ chunk ∈ chunks, newline ∈ chunk)
    (absent : ∀ chunk ∈ later.head?, newline ∉ chunk) (nonempty : ∀ chunk ∈ later, chunk ≠ [])
    (short : ∀ line ∈ (scan [] (chunks ++ later).flatten).1, line.length + 1 < bufSize) :
    (∀ pattern, grep pattern [] (chunks ++ later) = writes pattern (scan [] (chunks ++ later).flatten).1) ↔
      ∀ chunk ∈ later, newline ∉ chunk := by
  rw [flatten_append] at clear short ⊢
  obtain ⟨early, clear⟩ := forall_mem_append.mp clear
  rw [scan_append early] at short ⊢
  have plain : Plain (scan [] chunks.flatten).2 := scan_rest early (forall_mem_nil _)
  have same : ∀ pattern, grep pattern [] (chunks ++ later) = writes pattern _ ++ _ := fun pattern =>
    grep_append (forall_mem_nil _) early found (forall_mem_append.mp short).1
  simp only [same, writes, filter_append, flatMap_append, append_cancel_left_eq]
  simp only [← writes.eq_def]
  cases later with
  | nil => simp [grep, scan, writes]
  | cons chunk later =>
    obtain ⟨own, clear⟩ := forall_mem_append.mp clear
    have lost : newline ∉ chunk := absent chunk rfl
    rw [flatten_cons, scan_append own, scan_plain (plain_of_notMem own lost), nil_append]
    constructor
    · intro equal other member ends
      have inside : newline ∈ later.flatten := by
        rcases mem_cons.mp member with rfl | member
        · exact absurd ends lost
        · exact mem_flatten_of_mem member ends
      have positive := length_pos_of_ne_nil (nonempty chunk (.head _))
      have less := (grep_lost plain own lost).trans (grep_le (forall_mem_nil _) clear)
      rw [equal, writes_scan clear, if_pos inside, length_append] at less
      omega
    · intro quiet pattern
      have others : ∀ other ∈ chunk :: later, Plain other := by
        intro other member
        exact plain_of_notMem (fun c inside => forall_mem_append.mpr ⟨own, clear⟩ c
          (mem_flatten_of_mem member inside)) (quiet other member)
      rw [grep_plain plain others, scan_plain]
      · rfl
      · intro c member
        obtain ⟨other, member, inside⟩ := mem_flatten.mp member
        exact others other (.tail _ member) c inside

/-- The output is the matching lines for every pattern exactly if no chunk without a newline comes before one with a
newline. -/
theorem grep_chunks_iff (stream : chunks.flatten = lines.flatMap (fun line => line ++ [newline]) ++ last)
    (plain : ∀ line ∈ last :: lines, Plain line ∧ line.length + 1 < bufSize) (nonempty : ∀ chunk ∈ chunks, chunk ≠ []) :
    (∀ pattern, grep pattern [] chunks = writes pattern lines) ↔
      ∀ chunk ∈ chunks.dropWhile fun chunk => newline ∈ chunk, newline ∉ chunk := by
  have whole : scan [] chunks.flatten = (lines, last) := by
    rw [stream]
    exact scan_lines (fun line member => (plain line (.tail _ member)).1) (plain last (.head _)).1
  have clear : ∀ c ∈ chunks.flatten, c ≠ 0 := by
    intro c member
    rw [stream, mem_append, mem_flatMap] at member
    rcases member with ⟨line, member, inside⟩ | inside
    · rcases mem_append.mp inside with inside | same
      · exact ((plain line (.tail _ member)).1 c inside).2
      · rw [mem_singleton.mp same]
        decide
    · exact ((plain last (.head _)).1 c inside).2
  have split := @grep_split (chunks.takeWhile fun chunk => newline ∈ chunk)
    (chunks.dropWhile fun chunk => newline ∈ chunk)
  rw [takeWhile_append_dropWhile, whole] at split
  apply split clear
  · intro chunk member
    simpa using mem_takeWhile_imp member
  · intro chunk first
    have stops := head?_dropWhile_not (fun chunk => decide (newline ∈ chunk)) chunks
    rw [Option.mem_def.mp first] at stops
    simpa using stops
  · exact fun chunk member => nonempty chunk ((dropWhile_suffix _).mem member)
  · exact fun line member => (plain line (.tail _ member)).2

/-- Two chunks with the lines `a` and `b`. -/
theorem grep_chunks_iff_lines : grep [97] [] [[97, 10], [98, 10]] = writes [97] [[97], [98]] := by
  refine (@grep_chunks_iff [] [[97], [98]] _ rfl ?_ ?_).mpr ?_ [97]
  all_goals simp [Plain, newline, charByte, bufSize]

/-- The line `a` arrives in two chunks, and its first byte is lost. -/
theorem grep_loses_chunk : [[97], [10]].flatten = [[97]].flatMap (fun line => line ++ [newline]) ∧
    grep [] [] [[97], [10]] = [10] ∧ writes [] [[97]] = [97, 10] := by
  refine ⟨rfl, ?_, writes_empty⟩
  simp [grep, scan, writes_empty, newline, charByte, bufSize]

end Xv6.Grep
