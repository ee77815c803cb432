import Xv6.Proof.Exec.Stack

namespace Xv6
open Library Nat

/-- The number of pages that hold a size in bytes. -/
def pageCount (size : Nat) : Nat := (size + 4095) / PGSIZE

/-- The free pages that an image of the given size takes besides its top table. -/
def usedPages (size : Nat) : Nat := growCost 1 (pageCount size - 1)

def Fits (free size : Nat) : Prop := usedPages size ≤ free

namespace ProgHdr

def finish (ph : ProgHdr) : Nat := ph.vaddr.toNat + ph.memsz.toNat

/-- The file part of a segment has a 32-bit length. -/
def length (ph : ProgHdr) : Nat := ph.filesz.toNat % 2 ^ 32

/-- The file part of a segment has a 32-bit offset. -/
def start (ph : ProgHdr) : Nat := ph.off.toNat % 2 ^ 32

/-- The header passes the tests of `exec` and `allocuvm`. -/
def Checked (ph : ProgHdr) : Prop := ph.filesz.toNat ≤ ph.memsz.toNat ∧ ph.finish < KERNBASE.toNat

/-- The file holds the file part of the segment. -/
def Held (file : File) (ph : ProgHdr) : Prop := ph.length = 0 ∨ ph.start + ph.length ≤ file.bytes.length

/-- The segment starts at address 0, and either nothing is mapped or the file has a byte for it. -/
def Stray (file : File) (size : Nat) (ph : ProgHdr) : Prop :=
  ph.vaddr.toNat = 0 ∧ ph.length ≠ 0 ∧ (size ≤ PGSIZE ∨ ph.start < file.bytes.length)

end ProgHdr

/-- A segment that passes the tests and fits into memory is not stray, and the rest is safe if the file holds
the segment. -/
def SegmentSafe (file : File) (free : Nat) (ph : ProgHdr) (size : Nat) (next : Nat → Prop) : Prop :=
  (ph.type ≠ ELF_PROG_LOAD → next size) ∧
    (ph.type = ELF_PROG_LOAD → ph.Checked → Fits free (max size ph.finish) → PGSIZE ∣ ph.vaddr.toNat →
      ¬ph.Stray file (max size ph.finish) ∧ (ph.Held file → next (max size ph.finish)))

/-- The program header at an offset can be read or not. -/
def headerAt (file : File) (off : BitVec 32) : Option ProgHdr :=
  match readi file off (BitVec.ofNat 32 progHdrSize) with
  | none => none
  | some bytes => if bytes.length ≠ progHdrSize then none else some (.parse bytes)

def programHeaders (file : File) : Nat → BitVec 32 → List (Option ProgHdr)
  | 0, _ => []
  | headers + 1, off => headerAt file off :: programHeaders file headers (off + BitVec.ofNat 32 progHdrSize)

/-- The loop ends at the first header that cannot be read. -/
def SegmentsSafe (file : File) (free : Nat) : List (Option ProgHdr) → Nat → (Nat → Prop) → Prop
  | [], size, next => next size
  | none :: _, _, _ => True
  | some ph :: rest, size, next =>
    SegmentSafe file free ph size fun size => SegmentsSafe file free rest size next

/-- The loaded pages belong to the image except physical page 0. -/
structure Tracks (kernel : Kernel) (clean : Prop) : Prop where
  nonzero : 0 ∉ kernel.grown
  owned : ∀ frame ∈ kernel.loaded, frame = 0 ∨ frame ∈ kernel.grown
  clean : clean ↔ 0 ∉ kernel.loaded

section Tracks
variable {k after : Kernel} {clean : Prop}

variable (tracks : Tracks k clean)
include tracks

theorem Tracks.records (start : 0 < k.kend) (records : Records k after) : Tracks after clean where
  nonzero member := by
    rcases records.newer 0 member with old | allocatable
    · exact tracks.nonzero old
    · exact allocatable.ne_zero start rfl
  owned frame member := by
    rw [records.loaded] at member
    exact (tracks.owned frame member).imp_right fun old => records.older old
  clean := by
    rw [records.loaded]
    exact tracks.clean

theorem Tracks.stored {stray : Prop} {root top : Nat} {tree : List Nat → Option Nat} {closed : List Nat}
    (stored : Stored stray k root tree top closed after) : Tracks after (clean ∧ ¬stray) where
  nonzero := by
    rw [stored.grown]
    exact tracks.nonzero
  owned frame member := by
    rw [stored.grown]
    rcases stored.newer frame member with old | page | astray
    · exact tracks.owned frame old
    · exact .inr page
    · exact .inl astray.1
  clean := by
    constructor
    · rintro ⟨before, here⟩ member
      rcases stored.newer 0 member with old | page | astray
      · exact tracks.clean.mp before old
      · exact tracks.nonzero page
      · exact here astray.2
    · intro absent
      exact ⟨tracks.clean.mpr fun old => absent (stored.older old), fun some => absent (stored.astray some)⟩

theorem Tracks.freed {gone : Nat → Prop} (freed : Freed gone k after) : Tracks after clean := by
  refine ⟨?_, ?_, ?_⟩
  · rw [freed.grown]
    exact tracks.nonzero
  · rw [freed.grown, freed.loaded]
    exact tracks.owned
  · rw [freed.loaded]
    exact tracks.clean

theorem Tracks.congr {other : Prop} (same : other ↔ clean) : Tracks k other :=
  ⟨tracks.nonzero, tracks.owned, same.trans tracks.clean⟩

/-- All loaded pages belong to the image exactly when physical page 0 was not loaded. -/
theorem Tracks.owned_iff : (∀ frame ∈ k.loaded, frame ∈ k.grown) ↔ clean := by
  rw [tracks.clean]
  constructor
  · intro all member
    exact tracks.nonzero (all 0 member)
  · intro absent frame member
    rcases tracks.owned frame member with rfl | page
    · exact absurd member absent
    · exact page

end Tracks

/-- The image has a size, and the rest of the free pages is known. -/
structure Loading (origin kernel : Kernel) (root : Nat) (tree : List Nat → Option Nat) (sz : BitVec 64) (free : Nat)
    (clean : Prop) : Prop where
  image : Image kernel root tree (topPage sz) []
  evolves : Evolves [] origin (fun _ => none) kernel tree
  least : PGSIZE ≤ sz.toNat
  budget : kernel.freelist.length + usedPages sz.toNat = free
  tracks : Tracks kernel clean

/-- Loading halts, fails or goes on. The condition says for every continuation whether all is well. -/
inductive Outcome (origin : Kernel) (root free : Nat) (safe : (Nat → Prop) → Prop) :
    Except VmHalt (Option (BitVec 64) × Kernel) → Prop
  | halted {halt : VmHalt} (wrong : ∀ next, ¬safe next) : Outcome origin root free safe (.error halt)
  | rejected {after : Kernel} {tree : List Nat → Option Nat} {clean : Prop} (heap : Heap after)
      (space : Table 4 after root tree) (tracks : Tracks after clean) (verdict : ∀ next, safe next ↔ clean) :
      Outcome origin root free safe (.ok (none, after))
  | accepted {after : Kernel} {tree : List Nat → Option Nat} {sz : BitVec 64} {clean : Prop}
      (loading : Loading origin after root tree sz free clean) (verdict : ∀ next, safe next ↔ clean ∧ next sz.toNat) :
      Outcome origin root free safe (.ok (some sz, after))

theorem growCost_add (page first second : Nat) :
    growCost page (first + second) = growCost page first + growCost (page + first) second := by
  induction first generalizing page with
  | zero => rw [zero_add, growCost, zero_add, add_zero]
  | succ first ih =>
    have shifted : page + (first + 1) = page + 1 + first := by omega
    rw [succ_add, growCost, growCost, ih, shifted, add_assoc (pageCost page)]

theorem KERNBASE_toNat : KERNBASE.toNat = 0xFFFF800000000000 := rfl

section Segment
variable {origin kernel k : Kernel} {root free : Nat} {tree : List Nat → Option Nat} {sz : BitVec 64} {clean : Prop}
  {file : File} {ph : ProgHdr}

section
variable (loading : Loading origin k root tree sz free clean)
include loading

theorem Loading.ne_zero : sz ≠ 0 := by
  rintro rfl
  exact absurd loading.least (by decide)

theorem Loading.usedPages_eq {newsz : BitVec 64} (grow : ¬newsz < sz) :
    usedPages newsz.toNat = usedPages sz.toNat + growCost (topPage sz) (topPage newsz - topPage sz) := by
  have first := loading.image.first
  have mono := topPage_mono grow
  change growCost 1 (topPage newsz - 1) = growCost 1 (topPage sz - 1) + _
  have split : topPage newsz - 1 = (topPage sz - 1) + (topPage newsz - topPage sz) := by omega
  rw [split, growCost_add, Nat.add_sub_cancel' first]

/-- Growing the image succeeds exactly when the new size fits into memory. -/
theorem Loading.allocuvm {newsz : BitVec 64} (below : ¬newsz ≥ KERNBASE) (user : newsz.toNat ≤ 2 ^ 47) :
    (Fits free (max sz.toNat newsz.toNat) ∧ ∃ size after larger, k.allocuvm root sz newsz = .ok (size, after) ∧
        size.toNat = max sz.toNat newsz.toNat ∧ Loading origin after root larger size free clean) ∨
      ¬Fits free (max sz.toNat newsz.toNat) ∧ ∃ after smaller, k.allocuvm root sz newsz = .ok (0, after) ∧
        Heap after ∧ Table 4 after root smaller ∧ Tracks after clean := by
  have budget := loading.budget
  have start := loading.image.heap.start
  by_cases less : newsz < sz
  · have smaller : newsz.toNat < sz.toNat := BitVec.lt_def.mp less
    rw [max_eq_left smaller.le]
    refine .inl ⟨?_, sz, k, tree, ?_, rfl, loading⟩
    · rw [Fits]
      omega
    · rw [Kernel.allocuvm, if_neg below, if_pos less]
  · have order : sz.toNat ≤ newsz.toNat := BitVec.le_def.mp (BitVec.not_lt.mp less)
    have used := loading.usedPages_eq less
    rw [max_eq_right order]
    rcases loading.image.allocuvm_outcome below less user with
      ⟨enough, after, larger, ran, image, grown⟩ | ⟨few, after, smaller, ran, shrunk⟩
    · have count := (grown.span loading.image.span).2
      refine .inl ⟨?_, newsz, after, larger, ran, rfl, image, loading.evolves.trans grown.grows.toEvolves,
        loading.least.trans order, ?_, loading.tracks.records start grown.records⟩
      · rw [Fits]
        omega
      · omega
    · refine .inr ⟨?_, after, smaller, ran, shrunk.heap, shrunk.space, loading.tracks.records start shrunk.records⟩
      rw [Fits]
      omega

theorem Loading.loaduvm (aligned : PGSIZE ∣ ph.vaddr.toNat) (checked : ph.Checked) (covered : ph.finish ≤ sz.toNat) :
    (ph.Stray file sz.toNat ∧ ∃ halt,
        k.loaduvm root ph.vaddr file (ph.off.setWidth 32) (ph.filesz.setWidth 32) = .error halt) ∨
      ∃ ret after, k.loaduvm root ph.vaddr file (ph.off.setWidth 32) (ph.filesz.setWidth 32) = .ok (ret, after) ∧
        (ret < 0 ↔ ¬ph.Held file) ∧
        Loading origin after root tree sz free (clean ∧ ¬ph.Stray file sz.toNat) := by
  have length : (ph.filesz.setWidth 32).toNat = ph.length := BitVec.toNat_setWidth 32 ph.filesz
  have offset : (ph.off.setWidth 32).toNat = ph.start := BitVec.toNat_setWidth 32 ph.off
  have short : ph.length ≤ ph.filesz.toNat := mod_le _ _
  have least := loading.least
  obtain ⟨first, address⟩ := aligned
  rw [mul_comm] at address
  by_cases missing : ph.vaddr.toNat = 0 ∧ ph.length ≠ 0 ∧ sz.toNat ≤ PGSIZE
  · refine .inl ⟨⟨missing.1, missing.2.1, .inl missing.2.2⟩, .panic .missing, ?_⟩
    have single : topPage sz = 1 := by
      have equal : sz.toNat = PGSIZE := le_antisymm missing.2.2 least
      rw [topPage, equal]
      rfl
    have image := loading.image
    rw [single] at image
    exact image.loaduvm_missing missing.1 (length ▸ missing.2.1)
  · have inside : ph.vaddr.toNat + (ph.filesz.setWidth 32).toNat ≤ topPage sz * PGSIZE := by
      have sizes := checked.1
      rw [length]
      simp only [ProgHdr.finish] at covered
      simp only [topPage, PGSIZE]
      omega
    have above : first = 0 → (ph.filesz.setWidth 32).toNat ≠ 0 → 2 ≤ topPage sz := by
      intro zero nonempty
      rw [length] at nonempty
      have larger : ¬sz.toNat ≤ PGSIZE := fun small => missing ⟨by rw [address, zero, zero_mul], nonempty, small⟩
      simp only [PGSIZE] at larger
      simp only [topPage, PGSIZE]
      omega
    obtain ⟨after, ran, stored⟩ := loading.image.loaduvm_stored address inside above
    have stray : ph.Stray file sz.toNat ↔
        first = 0 ∧ (ph.filesz.setWidth 32).toNat ≠ 0 ∧ (ph.off.setWidth 32).toNat < file.bytes.length := by
      have zero : ph.vaddr.toNat = 0 ↔ first = 0 := by
        rw [address]
        simp only [PGSIZE]
        omega
      rw [length, offset, ProgHdr.Stray, zero]
      refine and_congr_right fun here => and_congr_right fun nonempty => or_iff_right fun small => ?_
      exact missing ⟨zero.mpr here, nonempty, small⟩
    refine .inr ⟨_, after, ran, ?_, stored.image, loading.evolves.trans stored.evolves, least, ?_, ?_⟩
    · rw [length, offset, ProgHdr.Held]
      split <;> simp_all
    · rw [stored.freelist]
      exact loading.budget
    · rw [stray]
      exact loading.tracks.stored stored

end

/-- The sum of the address and the memory size is tested for overflow and for the kernel half. -/
theorem ProgHdr.checked_iff (ph : ProgHdr) :
    ph.Checked ↔ ¬ph.memsz < ph.filesz ∧ ¬ph.vaddr + ph.memsz < ph.vaddr ∧ ¬ph.vaddr + ph.memsz ≥ KERNBASE := by
  have one := ph.vaddr.isLt
  have two := ph.memsz.isLt
  rw [ProgHdr.Checked, ProgHdr.finish, ge_iff_le, BitVec.lt_def, BitVec.lt_def, BitVec.le_def, BitVec.toNat_add,
    KERNBASE_toNat]
  omega

theorem ProgHdr.Checked.finish_toNat (checked : ph.Checked) : (ph.vaddr + ph.memsz).toNat = ph.finish := by
  have bounded := checked.2
  rw [KERNBASE_toNat] at bounded
  rw [BitVec.toNat_add]
  exact mod_eq_of_lt (bounded.trans (by decide))

/-- A segment that fails one of the tests before it is loaded is safe. -/
theorem SegmentSafe.of_untaken {size : Nat} {next : Nat → Prop} (load : ph.type = ELF_PROG_LOAD)
    (untaken : ph.Checked → Fits free (max size ph.finish) → ¬PGSIZE ∣ ph.vaddr.toNat) :
    SegmentSafe file free ph size next :=
  ⟨absurd load, fun _ checked fits aligned => absurd aligned (untaken checked fits)⟩

section
variable (loading : Loading origin k root tree sz free clean)
include loading

theorem Loading.reject {safe : (Nat → Prop) → Prop} (holds : ∀ next, safe next) :
    Outcome origin root free (fun next => clean ∧ safe next) (.ok (none, k)) :=
  .rejected loading.image.heap loading.image.space loading.tracks fun next => and_iff_left (holds next)

theorem Loading.loadPart {size : Nat} (load : ph.type = ELF_PROG_LOAD) (checked : ph.Checked)
    (sum : sz.toNat = max size ph.finish) (fits : Fits free (max size ph.finish)) (aligned : PGSIZE ∣ ph.vaddr.toNat) :
    Outcome origin root free (fun next => clean ∧ SegmentSafe file free ph size next)
      (k.loaduvm root ph.vaddr file (ph.off.setWidth 32) (ph.filesz.setWidth 32) >>= fun result =>
        if result.1 < 0 then .ok (none, result.2) else .ok (some sz, result.2)) := by
  have safe_iff : ∀ next, SegmentSafe file free ph size next ↔
      ¬ph.Stray file sz.toNat ∧ (ph.Held file → next sz.toNat) := by
    intro next
    rw [sum]
    exact ⟨fun safe => safe.2 load checked fits aligned,
      fun safe => ⟨absurd load, fun _ _ _ _ => safe⟩⟩
  have covered : ph.finish ≤ sz.toNat := by
    rw [sum]
    exact le_max_right _ _
  rcases loading.loaduvm aligned checked covered with ⟨stray, halt, ran⟩ | ⟨ret, after, ran, failed, loaded⟩
  · rw [ran]
    refine .halted fun next safe => ?_
    exact ((safe_iff next).mp safe.2).1 stray
  · rw [ran, ok_bind]
    by_cases bad : ret < 0
    · rw [if_pos bad]
      refine .rejected loaded.image.heap loaded.image.space loaded.tracks fun next => ?_
      rw [safe_iff]
      have unheld := failed.mp bad
      tauto
    · rw [if_neg bad]
      refine .accepted loaded fun next => ?_
      rw [safe_iff]
      have held : ph.Held file := not_not.mp fun unheld => bad (failed.mpr unheld)
      tauto

theorem Loading.loadSegment (low : ph.type = ELF_PROG_LOAD → ph.Checked → ph.finish ≤ 2 ^ 47) :
    Outcome origin root free (fun next => clean ∧ SegmentSafe file free ph sz.toNat next)
      (k.loadSegment root file sz ph) := by
  rw [Kernel.loadSegment]
  by_cases other : ph.type ≠ ELF_PROG_LOAD
  · rw [if_pos other]
    refine .accepted loading fun next => and_congr_right fun _ => ?_
    exact ⟨fun safe => safe.1 other, fun holds => ⟨fun _ => holds, fun same => absurd same other⟩⟩
  · have load : ph.type = ELF_PROG_LOAD := not_not.mp other
    rw [if_neg other]
    by_cases checked : ph.Checked
    · obtain ⟨sizes, nowrap, below⟩ := ph.checked_iff.mp checked
      have finish := checked.finish_toNat
      have alloc := loading.allocuvm below (finish ▸ low load checked)
      rw [finish] at alloc
      rw [if_neg sizes, if_neg nowrap]
      rcases alloc with
        ⟨fits, size, middle, larger, ran, sum, grown⟩ | ⟨short, after, smaller, ran, heap, space, tracks⟩
      · rw [ran, ok_bind]
        dsimp only
        rw [if_neg grown.ne_zero]
        by_cases page : ph.vaddr.toNat % PGSIZE ≠ 0
        · rw [if_pos page]
          exact grown.reject fun next => .of_untaken load fun _ _ aligned => page (mod_eq_zero_of_dvd aligned)
        · rw [if_neg page]
          exact grown.loadPart load checked sum fits (dvd_of_mod_eq_zero (not_not.mp page))
      · rw [ran, ok_bind]
        refine .rejected heap space tracks fun next => and_iff_left ?_
        exact .of_untaken load fun _ fits => absurd fits short
    · have rejected : Outcome origin root free (fun next => clean ∧ SegmentSafe file free ph sz.toNat next)
          (.ok (none, k)) := loading.reject fun next => .of_untaken load fun yes => absurd yes checked
      rw [ph.checked_iff] at checked
      split
      · exact rejected
      · split
        · exact rejected
        · have high : ph.vaddr + ph.memsz ≥ KERNBASE := by tauto
          rw [Kernel.allocuvm, if_pos high, ok_bind]
          exact rejected

end

/-- The loop goes on after a header that did not jump to `bad`. -/
def Kernel.loadRest (root : Nat) (file : File) (headers : Nat) (off : BitVec 32) :
    Option (BitVec 64) × Kernel → Except VmHalt (Option (BitVec 64) × Kernel)
  | (none, kernel) => .ok (none, kernel)
  | (some sz, kernel) => loadSegments root file headers off sz kernel

theorem loadSegments_succ (headers : Nat) (off : BitVec 32) : Kernel.loadSegments root file (headers + 1) off sz k =
      match headerAt file off with
      | none => .ok (none, k)
      | some ph => k.loadSegment root file sz ph >>=
          Kernel.loadRest root file headers (off + BitVec.ofNat 32 progHdrSize) := by
  rw [Kernel.loadSegments, headerAt]
  cases readi file off (BitVec.ofNat 32 progHdrSize) with
  | none => rfl
  | some bytes =>
    by_cases partly : bytes.length ≠ progHdrSize
    · simp only [if_pos partly]
    · simp only [if_neg partly]
      refine bind_congr ?_
      rintro ⟨_ | _, _⟩ <;> rfl

theorem Outcome.congr {safe other : (Nat → Prop) → Prop} {result : Except VmHalt (Option (BitVec 64) × Kernel)}
    (outcome : Outcome origin root free safe result) (same : ∀ next, other next ↔ safe next) :
    Outcome origin root free other result := by
  cases outcome with
  | halted wrong => exact .halted fun next holds => wrong next ((same next).mp holds)
  | rejected heap space tracks verdict => exact .rejected heap space tracks fun next => (same next).trans (verdict next)
  | accepted loading verdict => exact .accepted loading fun next => (same next).trans (verdict next)

theorem Loading.loadSegments {headers : Nat} {off : BitVec 32} (loading : Loading origin k root tree sz free clean)
    (low : ∀ ph, some ph ∈ programHeaders file headers off → ph.type = ELF_PROG_LOAD → ph.Checked →
      ph.finish ≤ 2 ^ 47) :
    Outcome origin root free
      (fun next => clean ∧ SegmentsSafe file free (programHeaders file headers off) sz.toNat next)
      (Kernel.loadSegments root file headers off sz k) := by
  induction headers generalizing off sz k tree clean with
  | zero => exact .accepted loading fun next => Iff.rfl
  | succ headers ih =>
    rw [programHeaders] at low
    rw [loadSegments_succ, programHeaders]
    cases header : headerAt file off with
    | none => exact loading.reject fun next => trivial
    | some ph =>
      have segment : Outcome origin root free _ (k.loadSegment root file sz ph) :=
        loading.loadSegment (low ph (header ▸ (.head _)))
      dsimp only
      generalize k.loadSegment root file sz ph = result at segment
      cases segment with
      | halted wrong => exact .halted fun next => wrong _
      | rejected heap space tracks verdict => exact .rejected heap space tracks fun next => verdict _
      | accepted grown verdict =>
        refine (ih grown fun other member => low other (List.mem_cons_of_mem _ member)).congr fun next => ?_
        exact verdict _

end Segment
end Xv6
