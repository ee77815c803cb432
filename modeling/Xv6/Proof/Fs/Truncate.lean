import Xv6.Proof.Fs.ReadWrite

namespace Xv6
open Library Function List Dinode

/-- Some places have given up their blocks. -/
def without (holds : Nat × Nat → Option BlockNo) (gone : List (Nat × Nat)) (place : Nat × Nat) : Option BlockNo :=
  if place ∈ gone then none else holds place

theorem without_snoc (holds : Nat × Nat → Option BlockNo) (gone : List (Nat × Nat)) (place : Nat × Nat) :
    without holds (gone ++ [place]) = update (without holds gone) place none := by
  funext other
  rw [without, update_apply, without]
  by_cases same : other = place <;> simp [same]

namespace Fs
variable {start fs next : Fs} {ip : Fin NINODE} {gone : List (Nat × Nat)} {place : Nat × Nat} {b : BlockNo}
  {bad : FsPanic → Prop} {inum index : Nat} {done : List Nat}

/-- Some blocks of the inode have been freed. Only the free map and the cached copy have changed. -/
structure Freeing (start : Fs) (ip : Fin NINODE) (gone : List (Nat × Nat)) (fs : Fs) : Prop extends
    Edited ip start fs where
  blocks : Blocks start.sb fs.disk (without (held start.sb start.disk (start.table ip)) gone)
  frame : ∀ c, Unmapped start.sb c → fs.disk c = start.disk c

namespace Freeing

variable (freeing : Freeing start ip gone fs)
include freeing

theorem skip (empty : without (held start.sb start.disk (start.table ip)) gone place = none) :
    Freeing start ip (gone ++ [place]) fs where
  toEdited := freeing.toEdited
  blocks := by
    rw [without_snoc, ← empty, update_eq_self]
    exact freeing.blocks
  frame := freeing.frame

theorem setAddr (index : Fin (NDIRECT + 1)) (addr : BlockNo) : Freeing start ip gone (fs.setAddr ip index addr) where
  toEdited := by
    apply freeing.toEdited.trans
    refine ⟨rfl, ?_, fun _ _ => rfl⟩
    have copy : (fs.setAddr ip index addr).copy ip = (fs.copy ip).setAddr index addr :=
      congrArg Inode.dinode (setCopy_icache fs ip _)
    rw [copy]
    rfl
  blocks := freeing.blocks
  frame := freeing.frame

theorem wp_bfree (here : without (held start.sb start.disk (start.table ip)) gone place = some b) :
    wp (bfree b) (fun _ next => Freeing start ip (gone ++ [place]) next ∧ next.icache = fs.icache) bad fs := by
  have blocks := freeing.blocks
  have sb := freeing.sb
  have inside := (blocks.owned.proper place b here).1
  apply wp_mono (Fs.wp_bfree (b := b) (by rw [sb]; exact blocks.layout) (by rw [sb]; exact blocks.super)
    (by rw [sb]; exact inside) (by rw [sb]; exact blocks.owned.used_of_held here))
  · rintro _ next ⟨same, cache, released⟩
    rw [sb] at released
    refine ⟨⟨freeing.toEdited.trans (.of_cache same cache ?_), ?_, ?_⟩, cache⟩
    · intro inum within
      rw [sb] at within
      have bounds := blocks.layout.IBLOCK_bounds within
      rw [dinode, dinode, same, sb, released.frame _ (.inl bounds.2)]
    · rw [without_snoc]
      exact blocks.drop released here
    · intro c unmapped
      rw [released.frame c unmapped, freeing.frame c unmapped]
  · exact fun _ => False.elim

end Freeing

theorem Freeing.refl (blocks : Blocks fs.sb fs.disk (held fs.sb fs.disk (fs.table ip))) : Freeing fs ip [] fs where
  toEdited := .refl ip fs
  blocks := by
    have same : without (held fs.sb fs.disk (fs.table ip)) [] = held fs.sb fs.disk (fs.table ip) := by
      funext place
      simp [without]
    rw [same]
    exact blocks
  frame _ _ := rfl

theorem without_unit (live : start.Live ip) (gone : List (Nat × Nat)) (index : Nat) :
    without (held start.sb start.disk (start.table ip)) gone ((start.icache ip).inum, index) =
      mapped (if ((start.icache ip).inum, index) ∈ gone then 0 else (start.copy ip).unit start.disk index) := by
  rw [without]
  split
  · rfl
  · rw [held, if_pos ⟨live.image.inside, live.image.type⟩, table_self]

/-- The places of the direct blocks. -/
def directPlaces (inum : Nat) (done : List (Fin NDIRECT)) : List (Nat × Nat) := done.map fun index => (inum, index.val)

theorem mem_directPlaces {done : List (Fin NDIRECT)} {index : Fin NDIRECT} :
    (inum, index.val) ∈ directPlaces inum done ↔ index ∈ done := by
  simp only [directPlaces, mem_map, Prod.mk.injEq, true_and, ← Fin.ext_iff, exists_eq_right]

/-- Some of the direct blocks have been freed. -/
structure FreeingDirect (start : Fs) (ip : Fin NINODE) (done : List (Fin NDIRECT)) (fs : Fs) : Prop extends
    Freeing start ip (directPlaces (start.icache ip).inum done) fs where
  direct : ∀ index : Fin NDIRECT, (fs.copy ip).addrs index.castSucc =
    if index ∈ done then 0 else (start.copy ip).addrs index.castSucc
  indirect : (fs.copy ip).indirect = (start.copy ip).indirect

/-- One iteration of the first loop frees a direct block if there is one. -/
theorem wp_freeDirect {done : List (Fin NDIRECT)} {index : Fin NDIRECT} (live : start.Live ip)
    (freeing : FreeingDirect start ip done fs) :
    wp (freeDirect ip index) (fun _ next => FreeingDirect start ip (done ++ [index]) next) bad fs := by
  have snoc : directPlaces (start.icache ip).inum (done ++ [index]) =
      directPlaces (start.icache ip).inum done ++ [((start.icache ip).inum, index.val)] := map_append
  have here := without_unit live (directPlaces (start.icache ip).inum done) index.val
  have unit : (start.copy ip).unit start.disk index.val = (start.copy ip).addrs index.castSucc :=
    unit_direct (Nat.lt_succ_of_lt index.isLt)
  simp only [mem_directPlaces, unit, ← freeing.direct] at here
  rw [freeDirect, wp_bind, wp_get]
  split
  · next zero =>
      rw [zero] at here
      rw [wp_pure]
      refine ⟨?_, ?_, freeing.indirect⟩
      · rw [snoc]
        exact freeing.toFreeing.skip here
      · intro other
        rw [freeing.direct other]
        by_cases same : other = index
        · subst same
          rw [if_pos (mem_append_right _ (mem_singleton_self _)), ← freeing.direct, zero]
        · simp [same]
  · next nonzero =>
      rw [mapped, if_neg nonzero] at here
      rw [wp_bind]
      apply wp_imp (freeing.toFreeing.wp_bfree here)
      rintro _ next ⟨after, cache⟩
      have copy : next.copy ip = fs.copy ip := congrArg Inode.dinode (congrFun cache ip)
      have changed : (next.setAddr ip index.castSucc 0).copy ip = (fs.copy ip).setAddr index.castSucc 0 := by
        rw [← copy]
        exact congrArg Inode.dinode (setCopy_icache next ip _)
      rw [wp_modify]
      refine ⟨?_, ?_, ?_⟩
      · rw [snoc]
        exact after.setAddr ..
      · intro other
        rw [changed, setAddr_addrs, update_apply, freeing.direct other]
        by_cases same : other = index
        · subst same
          simp
        · simp [same]
      · rw [changed, indirect, setAddr_addrs, update_of_ne (Fin.castSucc_lt_last index).ne']
        exact freeing.indirect

/-- The places of the blocks that the indirect block names. -/
def entryPlaces (inum : Nat) (done : List Nat) : List (Nat × Nat) := done.map fun index => (inum, NDIRECT + 1 + index)

/-- All direct blocks and some of the blocks of the indirect block have been freed. -/
structure FreeingEntries (start : Fs) (ip : Fin NINODE) (done : List Nat) (fs : Fs) : Prop extends
    Freeing start ip (directPlaces (start.icache ip).inum (List.finRange NDIRECT) ++
      entryPlaces (start.icache ip).inum done) fs where
  direct : ∀ index : Fin NDIRECT, (fs.copy ip).addrs index.castSucc = 0
  indirect : (fs.copy ip).indirect = (start.copy ip).indirect

theorem mem_freed :
    (inum, NDIRECT + 1 + index) ∈ directPlaces inum (finRange NDIRECT) ++ entryPlaces inum done ↔ index ∈ done := by
  rw [mem_append]
  constructor
  · rintro (direct | entry)
    · obtain ⟨other, _, same⟩ := mem_map.mp direct
      have equal := congrArg Prod.snd same
      have small := other.isLt
      simp only at equal
      omega
    · obtain ⟨other, member, same⟩ := mem_map.mp entry
      have equal := congrArg Prod.snd same
      simp only at equal
      obtain rfl : other = index := by omega
      exact member
  · intro member
    exact .inr (mem_map.mpr ⟨index, member, rfl⟩)

/-- The indirect block is at its place while its entries are freed. -/
theorem indirect_held (live : start.Live ip) (present : (start.copy ip).indirect ≠ 0) (done : List Nat) :
    without (held start.sb start.disk (start.table ip)) (directPlaces (start.icache ip).inum (finRange NDIRECT) ++
      entryPlaces (start.icache ip).inum done) ((start.icache ip).inum, NDIRECT) = some (start.copy ip).indirect := by
  have outside : ((start.icache ip).inum, NDIRECT) ∉ directPlaces (start.icache ip).inum (finRange NDIRECT) ++
      entryPlaces (start.icache ip).inum done := by
    rw [mem_append]
    rintro (direct | entry)
    · obtain ⟨other, _, same⟩ := mem_map.mp direct
      have equal := congrArg Prod.snd same
      exact absurd equal other.isLt.ne
    · obtain ⟨other, _, same⟩ := mem_map.mp entry
      have equal := congrArg Prod.snd same
      simp only at equal
      omega
  rw [without_unit live, if_neg outside, unit_indirect, mapped, if_neg present]

/-- One iteration of the second loop frees the block of an entry if there is one. -/
theorem wp_freeEntry (live : start.Live ip) (present : (start.copy ip).indirect ≠ 0) (fresh : index ∉ done)
    (freeing : FreeingEntries start ip done fs) :
    wp (freeEntry (start.copy ip).indirect index) (fun _ next => FreeingEntries start ip (done ++ [index]) next) bad
      fs := by
  have snoc : directPlaces (start.icache ip).inum (finRange NDIRECT) ++
        entryPlaces (start.icache ip).inum (done ++ [index]) =
      directPlaces (start.icache ip).inum (finRange NDIRECT) ++ entryPlaces (start.icache ip).inum done ++
        [((start.icache ip).inum, NDIRECT + 1 + index)] := by
    rw [entryPlaces, map_append, append_assoc]
    rfl
  have data := (freeing.blocks.data (indirect_held live present done)).1
  have here := without_unit live (directPlaces (start.icache ip).inum (finRange NDIRECT) ++
    entryPlaces (start.icache ip).inum done) (NDIRECT + 1 + index)
  rw [if_neg (mt mem_freed.mp fresh), unit_entry (Nat.le_add_right ..) present, Nat.add_sub_cancel_left,
    ← freeing.frame _ (.inr data)] at here
  rw [freeEntry, wp_bind, wp_get]
  split
  · next zero =>
      rw [zero] at here
      rw [wp_pure]
      refine ⟨?_, freeing.direct, freeing.indirect⟩
      rw [snoc]
      exact freeing.toFreeing.skip here
  · next nonzero =>
      rw [mapped, if_neg nonzero] at here
      apply wp_imp (freeing.toFreeing.wp_bfree here)
      rintro _ next ⟨after, cache⟩
      have copy : next.copy ip = fs.copy ip := congrArg Inode.dinode (congrFun cache ip)
      refine ⟨?_, ?_, ?_⟩
      · rw [snoc]
        exact after
      · rw [copy]
        exact freeing.direct
      · rw [copy]
        exact freeing.indirect

/-- All blocks of the inode have been freed. -/
structure Emptied (ip : Fin NINODE) (start fs : Fs) : Prop extends Edited ip start fs where
  blocks : Blocks fs.sb fs.disk (held fs.sb fs.disk (fs.table ip))
  frame : ∀ c, Unmapped start.sb c → fs.disk c = start.disk c
  addrs : ∀ index, (fs.copy ip).addrs index = 0

/-- The freed places are all places of the inode. -/
theorem Freeing.emptied (blocks : Blocks start.sb start.disk (held start.sb start.disk (start.table ip)))
    (freeing : Freeing start ip gone fs) (addrs : ∀ index, (fs.copy ip).addrs index = 0)
    (all : ∀ place, place.1 = (start.icache ip).inum →
      without (held start.sb start.disk (start.table ip)) gone place = none)
    (own : ∀ place ∈ gone, place.1 = (start.icache ip).inum) : Emptied ip start fs := by
  refine ⟨freeing.toEdited, ?_, freeing.frame, addrs⟩
  have same : held start.sb fs.disk (fs.table ip) = without (held start.sb start.disk (start.table ip)) gone := by
    funext place
    by_cases mine : place.1 = (start.icache ip).inum
    · rw [all place mine]
      obtain ⟨inum, index⟩ := place
      simp only at mine
      rw [Option.eq_none_iff_forall_ne_some]
      intro b here
      obtain ⟨_, _, unit, nonzero⟩ := held_eq_some.mp here
      rw [mine, ← freeing.inum, table_self, unit_empty addrs] at unit
      exact nonzero unit.symm
    · rw [without, if_neg (mt (own place) mine), held, held]
      by_cases inside : place.1 < start.sb.ninodes.toNat
      · have table : fs.table ip place.1 = start.table ip place.1 := by
          rw [Fs.table, Fs.table, freeing.inum, update_of_ne mine, update_of_ne mine, freeing.inodes _ inside]
        rw [table]
        split
        · next allocated =>
            rw [unit_congr]
            intro present
            have there := FsImage.held_indirect start.disk ⟨inside, allocated.2⟩ present
            exact freeing.frame _ (.inr (blocks.data there).1)
        · rfl
      · simp [inside]
  rw [freeing.sb, same]
  exact freeing.blocks

theorem without_none (live : start.Live ip) {place : Nat × Nat} (mine : place.1 = (start.icache ip).inum)
    (empty : place ∈ gone ∨ (start.copy ip).unit start.disk place.2 = 0) :
    without (held start.sb start.disk (start.table ip)) gone place = none := by
  obtain ⟨inum, index⟩ := place
  obtain rfl : inum = (start.icache ip).inum := mine
  rw [without_unit live]
  rcases empty with freed | zero
  · rw [if_pos freed]
    rfl
  · simp only at zero
    rw [zero, ite_self]
    rfl

theorem addrs_zero {dinode : Dinode} (direct : ∀ index : Fin NDIRECT, dinode.addrs index.castSucc = 0)
    (indirect : dinode.indirect = 0) (index : Fin (NDIRECT + 1)) : dinode.addrs index = 0 := by
  refine Fin.lastCases ?_ ?_ index
  · exact indirect
  · exact direct

theorem direct_mem (direct : index < NDIRECT) : (inum, index) ∈ directPlaces inum (finRange NDIRECT) :=
  mem_map.mpr ⟨⟨index, direct⟩, mem_finRange _, rfl⟩

theorem entry_mem (low : NDIRECT + 1 ≤ index) (high : index < MAXFILE + 1) :
    (inum, index) ∈ entryPlaces inum (range NINDIRECT) := by
  refine mem_map.mpr ⟨index - (NDIRECT + 1), ?_, ?_⟩
  · rw [mem_range]
    rw [MAXFILE] at high
    omega
  · rw [Nat.add_sub_cancel' low]

/-- The second part of `itrunc` frees the indirect block and the blocks that it names. -/
theorem wp_freeIndirect (live : start.Live ip)
    (blocks : Blocks start.sb start.disk (held start.sb start.disk (start.table ip)))
    (freeing : FreeingDirect start ip (finRange NDIRECT) fs) :
    wp (freeIndirect ip) (fun _ next => Emptied ip start next) bad fs := by
  have zero : ∀ index : Fin NDIRECT, (fs.copy ip).addrs index.castSucc = 0 := by
    intro index
    rw [freeing.direct, if_pos (mem_finRange _)]
  have same : (fs.copy ip).addrs (Fin.last NDIRECT) = (start.copy ip).indirect := freeing.indirect
  have first : ∀ place ∈ directPlaces (start.icache ip).inum (finRange NDIRECT),
      place.1 = (start.icache ip).inum := by
    intro place member
    obtain ⟨_, _, rfl⟩ := mem_map.mp member
    rfl
  rw [freeIndirect, wp_bind, wp_get, same]
  dsimp only
  split
  · next none =>
      rw [wp_pure]
      refine freeing.toFreeing.emptied blocks (addrs_zero zero (same.trans none)) ?_ first
      intro place mine
      apply without_none live mine
      by_cases direct : place.2 < NDIRECT
      · left
        rw [← Prod.eta place, mine]
        exact direct_mem direct
      · right
        rcases Nat.eq_or_lt_of_not_lt direct with indirect | entry
        · rw [indirect, unit_indirect, none]
        · rw [unit, dif_neg (by omega), if_pos none]
  · next present =>
      rw [wp_bind]
      have loop : wp ((range NINDIRECT).forM (freeEntry (start.copy ip).indirect))
          (fun _ next => FreeingEntries start ip (range NINDIRECT) next) bad fs := by
        apply wp_forM (FreeingEntries start ip)
        · refine ⟨?_, zero, freeing.indirect⟩
          rw [entryPlaces, map_nil, append_nil]
          exact freeing.toFreeing
        · intro done index later current whole entries
          apply wp_freeEntry live present _ entries
          have nodup : (range NINDIRECT).Nodup := nodup_range
          rw [whole, nodup_middle, nodup_cons] at nodup
          exact fun member => nodup.1 (mem_append_left _ member)
      apply wp_imp loop
      intro _ middle entries
      rw [wp_bind]
      apply wp_imp (entries.toFreeing.wp_bfree (indirect_held live present _))
      rintro _ next ⟨after, cache⟩
      rw [wp_modify]
      have copy : next.copy ip = middle.copy ip := congrArg Inode.dinode (congrFun cache ip)
      have changed : (next.setAddr ip (Fin.last NDIRECT) 0).copy ip = (middle.copy ip).setAddr (Fin.last NDIRECT) 0 := by
        rw [← copy]
        exact congrArg Inode.dinode (setCopy_icache next ip _)
      refine (after.setAddr (Fin.last NDIRECT) 0).emptied blocks ?_ ?_ ?_
      · rw [changed]
        apply addrs_zero
        · intro index
          rw [setAddr_addrs, update_of_ne (Fin.castSucc_lt_last index).ne]
          exact entries.direct index
        · rw [indirect, setAddr_addrs, update_self]
      · intro place mine
        apply without_none live mine
        by_cases beyond : MAXFILE + 1 ≤ place.2
        · exact .inr (unit_beyond _ _ beyond)
        · left
          rw [← Prod.eta place, mine, mem_append, mem_append]
          rcases Nat.lt_trichotomy place.2 NDIRECT with direct | indirect | entry
          · exact .inl (.inl (direct_mem direct))
          · rw [indirect]
            exact .inr (mem_singleton_self _)
          · exact .inl (.inr (entry_mem entry (by omega)))
      · intro place member
        rw [mem_append, mem_append, mem_singleton] at member
        rcases member with (direct | entry) | rfl
        · exact first place direct
        · obtain ⟨_, _, rfl⟩ := mem_map.mp entry
          rfl
        · rfl

/-- The contents of the inode have been discarded. -/
structure Truncated (ip : Fin NINODE) (fs next : Fs) : Prop where
  sb : next.sb = fs.sb
  cache : next.icache = Function.update fs.icache ip
    {fs.icache ip with dinode := {fs.copy ip with size := 0, addrs := fun _ => 0}}
  own : next.dinode (fs.icache ip).inum = {fs.copy ip with size := 0, addrs := fun _ => 0}
  inodes : ∀ inum < fs.sb.ninodes.toNat, inum ≠ (fs.icache ip).inum → next.dinode inum = fs.dinode inum
  formed : next.WellFormed

/-- The call never frees a free block and leaves a well-formed state. -/
theorem wp_itrunc (formed : fs.WellFormed) (locked : fs.Locked ip) :
    wp (itrunc ip) (fun _ next => Truncated ip fs next) bad fs := by
  have live := formed.cached.live locked
  have table := formed.cached.table_eq locked
  have blocks : Blocks fs.sb fs.disk (held fs.sb fs.disk (fs.table ip)) := by
    rw [table]
    exact formed.blocks
  have direct : wp ((finRange NDIRECT).forM (freeDirect ip))
      (fun _ next => FreeingDirect fs ip (finRange NDIRECT) next) bad fs := by
    apply wp_forM (FreeingDirect fs ip)
    · exact ⟨.refl blocks, fun _ => by simp, rfl⟩
    · intro done index later current _ freeing
      exact wp_freeDirect live freeing
  rw [itrunc, wp_bind]
  apply wp_imp direct
  intro _ middle freeing
  rw [wp_bind]
  apply wp_imp (wp_freeIndirect live blocks freeing)
  intro _ last emptied
  rw [wp_bind, wp_modify]
  have alive := emptied.live live
  have used : 0 < (last.icache ip).ref := by
    rw [emptied.entry]
    exact locked.1
  have addrs : (last.copy ip).addrs = fun _ => 0 := funext emptied.addrs
  have image : FsImage last.sb last.disk (last.table ip) (update (fileUnits fs.dinode) (fs.icache ip).inum 0) := by
    refine ⟨emptied.blocks, ?_⟩
    intro inum inside type index
    rw [emptied.sb] at inside
    rw [update_apply]
    split
    · next own =>
        rw [own, ← emptied.inum, table_self, unit_empty emptied.addrs]
        exact ⟨absurd rfl, fun below => absurd below (Nat.not_lt_zero _)⟩
    · next other =>
        have same : last.table ip inum = fs.dinode inum := by
          rw [Fs.table, emptied.inum, update_of_ne other, emptied.inodes inum inside]
        rw [same] at type ⊢
        rw [unit_congr]
        · exact formed.image.filled inum inside type index
        · intro present
          exact emptied.frame _ (.inr (formed.blocks.data (FsImage.held_indirect fs.disk ⟨inside, type⟩ present)).1)
  refine wp_imp (wp_iupdate ?_ ?_) ?_
  · exact image.layout
  · rw [setCopy_icache]
    exact alive.inside
  · intro _ next synced
    have finished := Finished.of_synced image ((formed.cached.but ip).edited emptied.toEdited) alive used synced
    have copy : last.copy ip = {fs.copy ip with addrs := fun _ => 0} := by rw [emptied.copy, addrs]
    have own : next.dinode (fs.icache ip).inum = {fs.copy ip with size := 0, addrs := fun _ => 0} := by
      rw [← emptied.inum, finished.own, copy]
    have others : ∀ inum < fs.sb.ninodes.toNat, inum ≠ (fs.icache ip).inum → next.dinode inum = fs.dinode inum := by
      intro inum inside other
      rw [finished.inodes inum (by rw [emptied.sb]; exact inside) (by rw [emptied.inum]; exact other),
        emptied.inodes inum inside]
    refine ⟨finished.sb.trans emptied.sb, ?_, own, others, ?_⟩
    · rw [synced.cache]
      change update last.icache ip _ = _
      rw [emptied.entry, copy, emptied.cache, update_idem]
    · apply WellFormed.of_image _ finished.cached
      apply finished.image.congr_units
      intro inum within
      have inside : inum < fs.sb.ninodes.toNat := by
        have := within.inside
        rwa [finished.sb, emptied.sb] at this
      rw [update_apply, fileUnits]
      split
      · next same =>
          rw [same, own]
          change unitCount (blockCount (0 : BitVec 32).toNat) = 0
          decide
      · next other => rw [others inum inside other, fileUnits]

end Fs
end Xv6
