import Xv6.Construction.Exec
import Xv6.Proof.Vm.Access

namespace Xv6
open Library BitVec Kernel

section Read
variable {file : File} {off n : BitVec 32}

theorem File.length_lt (file : File) : file.bytes.length < 2 ^ 17 := by
  have fits := file.fits
  simp only [MAXFILE, NDIRECT, NINDIRECT, BSIZE] at fits
  omega

theorem File.size_toNat (file : File) : file.size.toNat = file.bytes.length := by
  have bounded := file.length_lt
  rw [File.size, toNat_ofNat]
  omega

/-- A read inside the file returns the bytes up to its end. -/
theorem readi_inside (inside : off.toNat ≤ file.bytes.length) (nowrap : off.toNat + n.toNat < 2 ^ 32) :
    ∃ bytes, readi file off n = some bytes ∧ bytes.length = min n.toNat (file.bytes.length - off.toNat) := by
  have size := file.size_toNat
  have bounded := file.length_lt
  have sum : (off + n).toNat = off.toNat + n.toNat := by
    rw [toNat_add]
    exact Nat.mod_eq_of_lt nowrap
  have accepted : ¬(off > file.size ∨ off + n < off) := by
    rw [gt_iff_lt, lt_def, lt_def, size, sum]
    omega
  rw [readi, if_neg accepted]
  refine ⟨_, rfl, ?_⟩
  rw [List.length_take, List.length_drop]
  by_cases beyond : off + n > file.size
  · rw [if_pos beyond, toNat_sub, size]
    rw [gt_iff_lt, lt_def, size, sum] at beyond
    omega
  · rw [if_neg beyond]

theorem readi_outside (outside : file.bytes.length < off.toNat ∨ 2 ^ 32 ≤ off.toNat + n.toNat) :
    readi file off n = none := by
  have size := file.size_toNat
  have one := off.isLt
  have two := n.isLt
  have rejected : off > file.size ∨ off + n < off := by
    rw [gt_iff_lt, lt_def, lt_def, size, toNat_add]
    omega
  rw [readi, if_pos rejected]

end Read

section Load
variable {root top : Nat} {kernel k : Kernel} {tree : List Nat → Option Nat} {closed : List Nat} {file : File}
  {addr : BitVec 64} {offset sz i : BitVec 32} {first done pages : Nat} {stray : Prop} {frame : Nat}

/-- The bytes of one iteration of `loaduvm` go to one page. -/
def Kernel.loadPage (kernel : Kernel) (frame : Nat) (bytes : List (BitVec 8)) : Kernel :=
  if bytes = [] then kernel
  else
    (kernel.setPage frame (Kernel.storeBytes (kernel.memory frame) 0 bytes)).record kernel.grown
      (frame :: kernel.loaded)

/-- The rest of an iteration after the walk, for a request of `n` bytes into a page. -/
def Kernel.loadChunk (root : Nat) (addr : BitVec 64) (file : File) (offset sz : BitVec 32) (pages : Nat)
    (i n : BitVec 32) (frame : Nat) (kernel : Kernel) : Except VmHalt (Int × Kernel) :=
  match readi file (offset + i) n with
  | none => .ok (-1, kernel)
  | some bytes =>
    if bytes.length ≠ n.toNat then .ok (-1, kernel.loadPage frame bytes)
    else loadLoop root addr file offset sz pages (i + BitVec.ofNat 32 PGSIZE) (kernel.loadPage frame bytes)

/-- Loading keeps the image, and it stores only into mapped pages unless it goes astray to physical page 0. -/
structure Stored (stray : Prop) (kernel : Kernel) (root : Nat) (tree : List Nat → Option Nat) (top : Nat)
    (closed : List Nat) (after : Kernel) : Prop where
  image : Image after root tree top closed
  evolves : Evolves [] kernel tree after tree
  freelist : after.freelist = kernel.freelist
  grown : after.grown = kernel.grown
  older : kernel.loaded ⊆ after.loaded
  newer : ∀ frame ∈ after.loaded, frame ∈ kernel.loaded ∨ frame ∈ kernel.grown ∨ frame = 0 ∧ stray
  astray : stray → 0 ∈ after.loaded

theorem Stored.refl (image : Image k root tree top closed) (none : ¬stray) : Stored stray k root tree top closed k :=
  ⟨image, (Grows.refl k tree).toEvolves, rfl, rfl, List.Subset.refl _, fun _ member => .inl member,
    fun some => absurd some none⟩

theorem Stored.trans {middle after : Kernel} (early : Stored stray k root tree top closed middle)
    (late : Stored False middle root tree top closed after) : Stored stray k root tree top closed after where
  image := late.image
  evolves := early.evolves.trans late.evolves
  freelist := late.freelist.trans early.freelist
  grown := late.grown.trans early.grown
  older := List.Subset.trans early.older late.older
  newer frame member := by
    rcases late.newer frame member with old | page | astray
    · exact early.newer frame old
    · exact .inr (.inl (early.grown ▸ page))
    · exact astray.2.elim
  astray some := late.older (early.astray some)

theorem Image.record (image : Image k root tree top closed) (loaded : List Nat) :
    Image (k.record k.grown loaded) root tree top closed :=
  ⟨image.heap.record _ _, image.space.record _ _, image.blank, image.first, image.room, image.mapped, image.grown,
    image.flags, image.upper⟩

theorem Stored.page (image : Image k root tree top closed) {bytes : List (BitVec 8)}
    (leaf : ∀ {place}, tree place = some frame → place.length = 4)
    (allowed : Owned k tree frame ∨ ¬k.Allocatable frame) (target : bytes ≠ [] → frame ∈ k.grown ∨ frame = 0 ∧ stray)
    (astray : stray → bytes ≠ [] ∧ frame = 0) : Stored stray k root tree top closed (k.loadPage frame bytes) := by
  rw [loadPage]
  split
  · rename_i empty
    exact .refl image fun some => (astray some).1 empty
  · rename_i nonempty
    obtain ⟨kept, grows⟩ := image.setPage leaf allowed (storeBytes (k.memory frame) 0 bytes)
    refine ⟨kept.record _, (grows.record _ _).toEvolves, rfl, rfl, List.subset_cons_self frame _, ?_, ?_⟩
    · intro other member
      rcases List.mem_cons.mp member with rfl | old
      · exact .inr (target nonempty)
      · exact .inl old
    · intro some
      rw [← (astray some).2]
      exact .head _

theorem chunk_toNat (inside : i.toNat ≤ sz.toNat) :
    (if (sz - i).toNat < PGSIZE then sz - i else BitVec.ofNat 32 PGSIZE).toNat = min PGSIZE (sz.toNat - i.toNat) := by
  have rest : (sz - i).toNat = sz.toNat - i.toNat := toNat_sub_of_le (le_def.mpr inside)
  split
  · rw [rest] at *
    omega
  · rw [rest] at *
    simp only [PGSIZE, BitVec.toNat_ofNat] at *
    omega

/-- One iteration reads into the page of an entry. -/
theorem loadLoop_step {table index : Nat} (walk : k.walkpgdir root (addr + i.setWidth 64) false =
      .ok (some (table, index), k)) (mapped : DirectMapped table)
    (direct : DirectMapped (pteFrame (slot 64 (k.memory table) index))) (inside : i.toNat ≤ sz.toNat) :
    ∃ n : BitVec 32, n.toNat = min PGSIZE (sz.toNat - i.toNat) ∧
      loadLoop root addr file offset sz (pages + 1) i k =
        k.loadChunk root addr file offset sz pages i n (pteFrame (slot 64 (k.memory table) index)) := by
  refine ⟨_, chunk_toNat inside, ?_⟩
  rw [loadLoop, walk, ok_bind]
  dsimp only
  rw [loadEntry_ok mapped, ok_bind, loadChunk]
  cases readi file (offset + i) (if (sz - i).toNat < PGSIZE then sz - i else BitVec.ofNat 32 PGSIZE) with
  | none => rfl
  | some bytes =>
    dsimp only
    by_cases empty : bytes = []
    · rw [if_pos empty, ok_bind, if_pos empty, loadPage, if_pos empty]
    · rw [if_neg empty, storePage_ok direct, ok_bind, if_neg empty, loadPage, if_neg empty]
      rfl

section
variable (image : Image k root tree top closed)
include image

/-- One iteration fails when the file ends too early, and it goes on otherwise. -/
theorem Image.loadLoop_iterate {n : BitVec 32} (chunk : n.toNat = min PGSIZE (sz.toNat - i.toNat))
    (index : i.toNat = done * PGSIZE) (count : done + (pages + 1) = (sz.toNat + 4095) / PGSIZE)
    (nowrap : (offset + i).toNat = offset.toNat + i.toNat)
    (stored : ∀ {bytes}, (bytes ≠ [] ↔ (offset + i).toNat < file.bytes.length) →
      Stored stray k root tree top closed (k.loadPage frame bytes))
    (inside : stray → (offset + i).toNat < file.bytes.length) (rest : ∀ {middle}, Image middle root tree top closed →
      (pages ≠ 0 → (offset + i).toNat + PGSIZE ≤ file.bytes.length) →
      ∃ after, loadLoop root addr file offset sz pages (i + BitVec.ofNat 32 PGSIZE) middle =
          .ok (if pages = 0 ∨ offset.toNat + sz.toNat ≤ file.bytes.length then 0 else -1, after) ∧
        Stored False middle root tree top closed after) :
    ∃ after, loadChunk root addr file offset sz pages i n frame k =
        .ok (if pages + 1 = 0 ∨ offset.toNat + sz.toNat ≤ file.bytes.length then 0 else -1, after) ∧
      Stored stray k root tree top closed after := by
  have length := file.length_lt
  simp only [PGSIZE] at chunk index count rest
  by_cases readable : (offset + i).toNat ≤ file.bytes.length ∧ (offset + i).toNat + n.toNat < 2 ^ 32
  · obtain ⟨bytes, read, taken⟩ := readi_inside readable.1 readable.2
    have nonempty : bytes ≠ [] ↔ (offset + i).toNat < file.bytes.length := by
      rw [← List.length_pos_iff, taken]
      omega
    rw [loadChunk, read]
    dsimp only
    by_cases full : bytes.length = n.toNat
    · obtain ⟨after, ran, late⟩ := rest (stored nonempty).image fun _ => by omega
      refine ⟨after, ?_, (stored nonempty).trans late⟩
      rw [if_neg (not_not.mpr full)]
      refine ran.trans ?_
      congr 2
      refine if_congr ?_ rfl rfl
      omega
    · refine ⟨k.loadPage frame bytes, ?_, stored nonempty⟩
      rw [if_pos full, if_neg (by omega)]
  · refine ⟨k, ?_, .refl image fun some => ?_⟩
    · rw [loadChunk, readi_outside (by omega), if_neg (by omega)]
    · have := inside some
      omega

/-- The loop loads the pages after page 0. It succeeds exactly when the file holds the whole segment. -/
theorem Image.loadLoop_stored (address : addr.toNat = first * PGSIZE) (index : i.toNat = done * PGSIZE)
    (nonzero : 1 ≤ first + done) (count : done + pages = (sz.toNat + 4095) / PGSIZE)
    (covered : first + done + pages ≤ top) (nowrap : pages ≠ 0 → (offset + i).toNat = offset.toNat + i.toNat) :
    ∃ after, loadLoop root addr file offset sz pages i k =
        .ok (if pages = 0 ∨ offset.toNat + sz.toNat ≤ file.bytes.length then 0 else -1, after) ∧
      Stored False k root tree top closed after := by
  induction pages generalizing done i k with
  | zero => exact ⟨k, rfl, .refl image id⟩
  | succ pages ih =>
    have bound := image.span.top_le
    have length := file.length_lt
    have bounded := sz.isLt
    have inside : i.toNat < sz.toNat := by
      simp only [PGSIZE] at index count
      omega
    have number : (addr + i.setWidth 64).toNat / PGSIZE = first + done := by
      have wide : (i.setWidth 64).toNat = i.toNat := BitVec.toNat_setWidth_of_le (by decide)
      rw [BitVec.toNat_add, wide, address, index]
      simp only [PGSIZE]
      omega
    obtain ⟨table, frame, walk, mapped, here, found, present, target⟩ :=
      image.lookup nonzero (show first + done < top by omega)
    obtain ⟨n, chunk, step⟩ := loadLoop_step (walk number) mapped
      (target ▸ (image.space.frames found).1.directMapped) inside.le
    rw [step, target]
    refine image.loadLoop_iterate chunk index count (nowrap (by omega)) ?_ False.elim ?_
    · intro bytes _
      exact .page image (image.leaf found) (.inl (.inr ⟨_, found⟩)) (fun _ => .inl (image.grown found rfl)) False.elim
    · intro middle kept fits
      have next : (i + BitVec.ofNat 32 PGSIZE).toNat = (done + 1) * PGSIZE := by
        simp only [PGSIZE] at index ⊢
        rw [BitVec.toNat_add, BitVec.toNat_ofNat]
        omega
      refine ih kept next (by omega) (by omega) (by omega) fun more => ?_
      have room := fits more
      rw [← BitVec.add_assoc, BitVec.toNat_add, nowrap (by omega)]
      rw [nowrap (by omega)] at room
      simp only [PGSIZE, BitVec.toNat_ofNat] at room index next ⊢
      omega

/-- A segment at address 0 is loaded into physical page 0. -/
theorem Image.loadLoop_astray (two : 2 ≤ top) (address : addr.toNat = 0)
    (count : pages + 1 = (sz.toNat + 4095) / PGSIZE) (covered : pages + 1 ≤ top) :
    ∃ after, loadLoop root addr file offset sz (pages + 1) 0 k =
        .ok (if pages + 1 = 0 ∨ offset.toNat + sz.toNat ≤ file.bytes.length then 0 else -1, after) ∧
      Stored (offset.toNat < file.bytes.length) k root tree top closed after := by
  have bound := image.span.top_le
  have nowrap : (offset + 0).toNat = offset.toNat + (0 : BitVec 32).toNat := by simp
  have start : (offset + 0).toNat = offset.toNat := by simp
  have number : (addr + (0 : BitVec 32).setWidth 64).toNat / PGSIZE = 0 := by
    simp [address]
  obtain ⟨table, walk, mapped, zero⟩ := image.lookup_zero two
  have target : pteFrame (slot 64 (k.memory table) 0) = 0 := by
    rw [zero]
    rfl
  have direct : DirectMapped (pteFrame (slot 64 (k.memory table) 0)) := by
    rw [target]
    decide
  have unallocated : ¬k.Allocatable 0 := fun allocatable => allocatable.ne_zero image.heap.start rfl
  obtain ⟨n, chunk, step⟩ := loadLoop_step (walk number) mapped direct (Nat.zero_le sz.toNat)
  rw [step, target]
  have index : (0 : BitVec 32).toNat = 0 * PGSIZE := rfl
  refine image.loadLoop_iterate chunk index (by omega) nowrap ?_ ?_ ?_
  · intro bytes nonempty
    rw [start] at nonempty
    refine .page image (fun found => ?_) (.inr unallocated) (fun some => .inr ⟨rfl, nonempty.mp some⟩)
      fun some => ⟨nonempty.mpr some, rfl⟩
    exact absurd (image.space.frames found).1 unallocated
  · rw [start]
    exact id
  · intro middle kept fits
    have second : (0 + BitVec.ofNat 32 PGSIZE).toNat = 1 * PGSIZE := rfl
    have origin : addr.toNat = 0 * PGSIZE := by rw [address, Nat.zero_mul]
    refine kept.loadLoop_stored origin second (by omega) (by omega) (by omega) fun more => ?_
    have room := fits more
    have length := file.length_lt
    rw [start] at room
    rw [BitVec.toNat_add]
    simp only [PGSIZE] at room ⊢
    change (offset.toNat + 4096) % 2 ^ 32 = offset.toNat + 4096
    omega

/-- Loading an aligned segment inside the image succeeds exactly when the file holds the whole segment. -/
theorem Image.loaduvm_stored (address : addr.toNat = first * PGSIZE) (covered : addr.toNat + sz.toNat ≤ top * PGSIZE)
    (above : first = 0 → sz.toNat ≠ 0 → 2 ≤ top) :
    ∃ after, k.loaduvm root addr file offset sz =
        .ok (if sz.toNat = 0 ∨ offset.toNat + sz.toNat ≤ file.bytes.length then 0 else -1, after) ∧
      Stored (first = 0 ∧ sz.toNat ≠ 0 ∧ offset.toNat < file.bytes.length) k root tree top closed after := by
  have bound := image.span.top_le
  have aligned : ¬addr.toNat % PGSIZE ≠ 0 := by
    rw [address, Nat.mul_mod_left]
    exact not_not.mpr rfl
  obtain ⟨pages, count, empty, inside⟩ : ∃ pages, (sz.toNat + (PGSIZE - 1)) / PGSIZE = pages ∧
      (pages = 0 ↔ sz.toNat = 0) ∧ first + pages ≤ top := by
    refine ⟨_, rfl, ?_⟩
    simp only [PGSIZE] at address covered ⊢
    omega
  have loop : ∃ after, loadLoop root addr file offset sz pages 0 k =
        .ok (if pages = 0 ∨ offset.toNat + sz.toNat ≤ file.bytes.length then 0 else -1, after) ∧
      Stored (first = 0 ∧ sz.toNat ≠ 0 ∧ offset.toNat < file.bytes.length) k root tree top closed after := by
    by_cases zero : first = 0
    · subst zero
      cases pages with
      | zero => exact ⟨k, rfl, .refl image fun some => some.2.1 (empty.mp rfl)⟩
      | succ pages =>
        have nonempty : sz.toNat ≠ 0 := by omega
        obtain ⟨after, ran, stored⟩ := image.loadLoop_astray (above rfl nonempty)
          (address.trans (Nat.zero_mul PGSIZE)) count.symm (by omega)
        refine ⟨after, ran, {stored with newer := ?_, astray := fun some => stored.astray some.2.2}⟩
        intro frame member
        rcases stored.newer frame member with old | page | astray
        · exact .inl old
        · exact .inr (.inl page)
        · exact .inr (.inr ⟨astray.1, rfl, nonempty, astray.2⟩)
    · have index : (0 : BitVec 32).toNat = 0 * PGSIZE := rfl
      obtain ⟨after, ran, stored⟩ := image.loadLoop_stored address index (by omega)
        ((Nat.zero_add pages).trans count.symm) (by omega) fun _ => by simp
      exact ⟨after, ran, (Stored.refl image fun some => zero some.1).trans stored⟩
  obtain ⟨after, ran, stored⟩ := loop
  refine ⟨after, ?_, stored⟩
  rw [loaduvm, if_neg aligned, count, ran, ok_bind]
  dsimp only
  rw [if_neg, if_congr (or_congr_left empty) rfl rfl]
  simp only [PGSIZE] at covered ⊢
  omega

end

/-- Without any mapped page a segment at address 0 panics. -/
theorem Image.loaduvm_missing (image : Image k root tree 1 closed) (address : addr.toNat = 0)
    (nonempty : sz.toNat ≠ 0) : k.loaduvm root addr file offset sz = .error (.panic .missing) := by
  have aligned : ¬addr.toNat % PGSIZE ≠ 0 := by simp [address]
  have number : (addr + (0 : BitVec 32).setWidth 64).toNat / PGSIZE = 0 := by
    simp [address]
  rw [loaduvm, if_neg aligned]
  cases pages : (sz.toNat + (PGSIZE - 1)) / PGSIZE with
  | zero =>
    simp only [PGSIZE] at pages
    omega
  | succ pages =>
    rw [loadLoop, image.lookup_empty number, ok_bind]
    rfl

end Load
end Xv6
