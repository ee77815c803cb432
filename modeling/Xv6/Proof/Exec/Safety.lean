import Xv6.Proof.Exec.Segments

namespace Xv6
open Library List BitVec Nat

def ElfHdr.headers (elf : ElfHdr) (file : File) : List (Option ProgHdr) :=
  programHeaders file elf.phnum.toNat (elf.phoff.setWidth 32)

/-- The stack takes two pages above the image. -/
def stackTop (size : Nat) : Nat := (pageCount size + 2) * PGSIZE

/-- If the stack fits into memory, no argument is longer than the space below the stack pointer. -/
def StackSafe (free : Nat) (argv : List (List (BitVec 8))) (size : Nat) : Prop :=
  Fits free (stackTop size) → ArgsSafe (stackTop size - PGSIZE) argv 0 (stackTop size)

/-- The rest of `exec` halts or returns, and the condition says whether all is well. -/
inductive Ended (safe : Prop) : Except VmHalt ExecResult → Prop
  | halted {halt : VmHalt} (wrong : ¬safe) : Ended safe (.error halt)
  | returned {result : ExecResult} {clean : Prop} (ret : result.ret = 0 ∨ result.ret = -1)
      (tracks : Tracks result.kernel clean) (verdict : safe ↔ clean) : Ended safe (.ok result)

section Ended
variable {origin kernel k : Kernel} {root top free : Nat} {tree theirs : List Nat → Option Nat} {clean safe : Prop}
  {proc : ExecProc} {path : List (BitVec 8)} {sz sp entry : BitVec 64} {strings : List (BitVec 64)}
  {argv : List (List (BitVec 8))}

theorem Ended.safe_iff {result : Except VmHalt ExecResult} (ended : Ended safe result) :
    (∃ final, result = .ok final ∧ (final.ret = 0 ∨ final.ret = -1) ∧
      ∀ frame ∈ final.kernel.loaded, frame ∈ final.kernel.grown) ↔ safe := by
  cases ended with
  | halted wrong =>
    refine iff_of_false ?_ wrong
    rintro ⟨final, ⟨⟩, _⟩
  | returned ret tracks verdict =>
    rw [verdict, ← tracks.owned_iff]
    constructor
    · rintro ⟨final, same, _, owned⟩
      cases same
      exact owned
    · intro owned
      exact ⟨_, rfl, ret, owned⟩

theorem Ended.congr {other : Prop} {result : Except VmHalt ExecResult} (ended : Ended safe result)
    (same : other ↔ safe) : Ended other result := by
  cases ended with
  | halted wrong => exact .halted fun holds => wrong (same.mp holds)
  | returned ret tracks verdict => exact .returned ret tracks (same.trans verdict)

/-- The new page table is freed after a failure. -/
theorem execBad_ended (heap : Heap k) (space : Table 4 k root tree) (tracks : Tracks k clean) :
    Ended clean (execBad proc root k) := by
  obtain ⟨after, ran, freed⟩ := space.freevm_freed heap
  rw [execBad, ran, ok_bind]
  exact .returned (.inr rfl) (tracks.freed freed) Iff.rfl

/-- The vector of arguments has three words more at its start and one at its end. -/
theorem ustack_length (first second third : BitVec 64) (strings : List (BitVec 64)) :
    (([first, second, third] ++ strings ++ [0]).flatMap wordBytes).length = 8 * (strings.length + 4) := by
  have words : ∀ vector : List (BitVec 64), (vector.flatMap wordBytes).length = 8 * vector.length := by
    simp [length_flatMap, wordBytes, mul_comm]
  rw [words, length_append, length_append]
  simp only [length_cons, length_nil]
  omega

theorem ustack_toNat {count : Nat} (few : count ≤ MAXARG) (room : 8 * (count + 4) ≤ sp.toNat) :
    (sp - (3 + BitVec.ofNat 64 count + 1) * 8).toNat = sp.toNat - 8 * (count + 4) := by
  have size : ((3 + BitVec.ofNat 64 count + 1) * 8).toNat = 8 * (count + 4) := by
    simp only [MAXARG] at few
    simp only [toNat_mul, toNat_add, toNat_ofNat, reduceToNat]
    omega
  rw [toNat_sub_of_le, size]
  rw [le_def, size]
  exact room

/-- The image is committed unless the vector of arguments does not fit into the stack page. -/
theorem execCommit_ended (image : Image k root tree top [top - 2]) (three : 3 ≤ top)
    (evolves : Evolves [] origin (fun _ => none) k tree) (tracks : Tracks k clean)
    (old : Table 4 origin proc.pgdir theirs) (low : (top - 1) * PGSIZE ≤ sp.toNat) (high : sp.toNat ≤ top * PGSIZE)
    (few : strings.length ≤ MAXARG) : Ended clean (execCommit k proc path root entry sz sp strings) := by
  have room : 8 * (strings.length + 4) ≤ sp.toNat := by
    simp only [PGSIZE, MAXARG] at low few
    omega
  have address := ustack_toNat few room
  have length := ustack_length 0xffffffff (BitVec.ofNat 64 strings.length)
    (sp - (BitVec.ofNat 64 strings.length + 1) * 8) strings
  rw [execCommit]
  dsimp only
  generalize ([0xffffffff, BitVec.ofNat 64 strings.length, sp - (BitVec.ofNat 64 strings.length + 1) * 8] ++
    strings ++ [0]).flatMap wordBytes = ustack at length
  generalize sp - (3 + BitVec.ofNat 64 strings.length + 1) * 8 = start at address
  obtain ⟨ret, middle, ran, failed, stored⟩ := image.copyout_range three (length_pos_iff.mp (by omega)) low high
    (show start.toNat + ustack.length ≤ sp.toNat by omega) (by omega)
  have kept : Tracks middle clean := (tracks.stored stored).congr (and_iff_left id).symm
  rw [ran, ok_bind]
  by_cases bad : ret < 0
  · rw [if_pos bad]
    exact execBad_ended stored.image.heap stored.image.space kept
  · rw [if_neg bad]
    have apart : ∀ {place frame}, theirs place = some frame → ¬Owned origin (fun _ => none) frame := by
      rintro place frame found (listed | ⟨_, ⟨⟩⟩)
      exact (old.frames found).2 listed
    obtain ⟨theirTable, _⟩ := old.other apart (evolves.trans stored.evolves)
    obtain ⟨after, freed, gone⟩ := theirTable.freevm_freed stored.image.heap
    rw [freed, ok_bind]
    exact .returned (.inl rfl) (kept.freed gone) Iff.rfl

/-- The rest of `exec` after the arguments. -/
def execPushed (proc : ExecProc) (path : List (BitVec 8)) (pgdir : Nat) (entry sz : BitVec 64) :
    Option (BitVec 64 × List (BitVec 64)) × Kernel → Except VmHalt ExecResult
  | (none, kernel) => execBad proc pgdir kernel
  | (some (sp, strings), kernel) => execCommit kernel proc path pgdir entry sz sp strings

theorem execStack_eq : execStack k proc path argv root entry sz =
      k.allocuvm root (PGROUNDUP sz) (PGROUNDUP sz + BitVec.ofNat 64 (2 * PGSIZE)) >>= fun grown =>
        if grown.1 = 0 then execBad proc root grown.2
        else grown.2.clearpteu root (grown.1 - BitVec.ofNat 64 (2 * PGSIZE)) >>= fun closed =>
          Kernel.pushArgs root argv grown.1 [] closed >>= execPushed proc path root entry grown.1 := by
  rw [execStack]
  refine bind_congr fun grown => if_congr Iff.rfl rfl (bind_congr fun closed => bind_congr ?_)
  rintro ⟨_ | ⟨_, _⟩, _⟩ <;> rfl

/-- The arguments are pushed below the top of the stack, and the image is committed. -/
theorem pushArgs_ended (image : Image k root tree top [top - 2]) (three : 3 ≤ top)
    (evolves : Evolves [] origin (fun _ => none) k tree) (tracks : Tracks k clean)
    (old : Table 4 origin proc.pgdir theirs) (short : ∀ string ∈ argv, string.length < PHYSTOP)
    (height : sz.toNat = top * PGSIZE) :
    Ended (clean ∧ ArgsSafe ((top - 1) * PGSIZE) argv 0 (top * PGSIZE))
      (Kernel.pushArgs root argv sz [] k >>= execPushed proc path root entry sz) := by
  have low : (top - 1) * PGSIZE ≤ sz.toNat := by
    rw [height]
    exact mul_le_mul_right PGSIZE (sub_le top 1)
  have args := image.pushArgs_stored three low height.le short (show ([] : List (BitVec 64)).length ≤ MAXARG by decide)
  rw [height] at args
  rcases args with ⟨safe, result, after, pushes, stored, bounds⟩ | ⟨faulty, pushes⟩
  · have kept : Tracks after clean := (tracks.stored stored).congr (and_iff_left id).symm
    rw [pushes, ok_bind]
    refine .congr ?_ (and_iff_left safe)
    rcases result with _ | ⟨last, strings⟩
    · exact execBad_ended stored.image.heap stored.image.space kept
    · obtain ⟨lower, upper, few⟩ := bounds last strings rfl
      exact execCommit_ended stored.image three (evolves.trans stored.evolves) kept old lower upper few
  · rw [pushes]
    exact .halted fun both => faulty both.2

theorem Loading.round (loading : Loading origin k root tree sz free clean) :
    (PGROUNDUP sz).toNat = topPage sz * PGSIZE ∧ Loading origin k root tree (PGROUNDUP sz) free clean := by
  have rounded := loading.image.rounded
  have same : topPage (PGROUNDUP sz) = topPage sz := by
    rw [topPage, rounded]
    simp only [PGSIZE]
    omega
  refine ⟨rounded, same ▸ loading.image, loading.evolves, ?_, ?_, loading.tracks⟩
  · rw [rounded]
    exact Nat.le_mul_of_pos_left _ loading.image.first
  · have pages : pageCount (PGROUNDUP sz).toNat = pageCount sz.toNat := same
    rw [usedPages, pages]
    exact loading.budget

theorem Loading.execStack (loading : Loading origin k root tree sz free clean)
    (old : Table 4 origin proc.pgdir theirs) (short : ∀ string ∈ argv, string.length < PHYSTOP) :
    Ended (clean ∧ StackSafe free argv sz.toNat) (execStack k proc path argv root entry sz) := by
  obtain ⟨rounded, aligned⟩ := loading.round
  have bound := loading.image.span.top_le
  have first := loading.image.first
  have target : (PGROUNDUP sz + BitVec.ofNat 64 (2 * PGSIZE)).toNat = stackTop sz.toNat := by
    rw [BitVec.toNat_add, rounded, BitVec.toNat_ofNat, stackTop]
    change _ = (topPage sz + 2) * PGSIZE
    simp only [PGSIZE]
    omega
  have height : stackTop sz.toNat = (topPage sz + 2) * PGSIZE := rfl
  have user : (PGROUNDUP sz + BitVec.ofNat 64 (2 * PGSIZE)).toNat ≤ 2 ^ 47 := by
    rw [target, height]
    simp only [PGSIZE]
    omega
  have below : ¬PGROUNDUP sz + BitVec.ofNat 64 (2 * PGSIZE) ≥ KERNBASE := by
    rw [ge_iff_le, BitVec.le_def, KERNBASE_toNat]
    omega
  have larger : max (PGROUNDUP sz).toNat (stackTop sz.toNat) = stackTop sz.toNat := by
    rw [rounded, height]
    exact max_eq_right (mul_le_mul_right PGSIZE (le_add_right _ 2))
  have alloc := aligned.allocuvm below user
  rw [target, larger] at alloc
  rw [execStack_eq]
  rcases alloc with
    ⟨fits, size, middle, grown, ran, sum, stacked⟩ | ⟨lacks, after, smaller, ran, heap, space, tracks⟩
  · have top : topPage size = topPage sz + 2 := by
      rw [topPage, sum, height]
      simp only [PGSIZE]
      omega
    have image := stacked.image
    rw [top] at image
    have number : (size - BitVec.ofNat 64 (2 * PGSIZE)).toNat / PGSIZE = topPage sz := by
      have word : (BitVec.ofNat 64 (2 * PGSIZE)).toNat = 8192 := rfl
      rw [BitVec.toNat_sub_of_le, word, sum, height]
      · simp only [PGSIZE]
        omega
      · rw [BitVec.le_def, word, sum, height]
        simp only [PGSIZE]
        omega
    have base : stackTop sz.toNat - PGSIZE = (topPage sz + 2 - 1) * PGSIZE := by
      rw [height]
      simp only [PGSIZE]
      omega
    obtain ⟨closed, cleared, guarded, closes, _, records⟩ := image.clearpteu_closed first (by omega) number
    have framed : Image closed root grown (topPage sz + 2) [topPage sz + 2 - 2] := guarded
    rw [ran, ok_bind, if_neg stacked.ne_zero, cleared, ok_bind]
    refine (pushArgs_ended framed (by omega) (stacked.evolves.trans closes)
      (stacked.tracks.records stacked.image.heap.start records) old short (sum.trans height)).congr ?_
    rw [StackSafe, base, height]
    exact and_congr_right fun _ => ⟨fun safe => safe fits, fun safe _ => safe⟩
  · rw [ran, ok_bind]
    exact (execBad_ended heap space tracks).congr (and_iff_left fun fits => absurd fits lacks)

end Ended

section Exec
variable {kernel k : Kernel} {proc : ExecProc} {theirs : List Nat → Option Nat} {inode : Option File}
  {argv : List (List (BitVec 8))}

/-- A kernel in which `exec` is called. The records start empty. -/
structure ExecReady (kernel : Kernel) (proc : ExecProc) (theirs : List Nat → Option Nat) : Prop where
  heap : Heap kernel
  old : Table 4 kernel proc.pgdir theirs
  grown : kernel.grown = []
  loaded : kernel.loaded = []

theorem ExecReady.tracks (ready : ExecReady k proc theirs) : Tracks k True where
  nonzero := by
    rw [ready.grown]
    exact not_mem_nil
  owned := by
    rw [ready.loaded]
    exact fun frame member => absurd member not_mem_nil
  clean := by
    rw [ready.loaded]
    exact iff_of_true trivial not_mem_nil

end Exec

end Xv6
