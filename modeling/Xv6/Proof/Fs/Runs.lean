import Xv6.Proof.Fs.Truncate

namespace Xv6
open Library Function FsPanic

namespace Fs
variable {start fs next : Fs} {ip : Fin NINODE} {inum : Nat} {devsw : Devsw}

/-- The panics that do not show a damaged free map. -/
def Harmless (panic : FsPanic) : Prop := panic ≠ .freeingFreeBlock

/-- A change of the cache that keeps it consistent keeps the state well formed. -/
theorem WellFormed.setInode (formed : fs.WellFormed) (inode : Inode) (cached : (fs.setInode ip inode).Cached) :
    (fs.setInode ip inode).WellFormed where
  blocks := formed.blocks
  mapped := formed.mapped
  cached := cached

/-- The consistency of the cache after a change of one entry. -/
theorem Cached.setInode (cached : fs.Cached) {inode : Inode}
    (unique : 0 < inode.ref → ∀ other ≠ ip, 0 < (fs.icache other).ref → (fs.icache other).inum ≠ inode.inum)
    (inside : 0 < inode.ref → inode.inum < fs.sb.ninodes.toNat)
    (same : 0 < inode.ref → inode.valid → inode.dinode = fs.dinode inode.inum)
    (type : 0 < inode.ref → inode.valid → inode.dinode.type ≠ 0) : (fs.setInode ip inode).Cached := by
  have own : (fs.setInode ip inode).icache ip = inode := update_self ..
  have others : ∀ other ≠ ip, (fs.setInode ip inode).icache other = fs.icache other :=
    fun other ne => update_of_ne ne ..
  refine ⟨?_, ?_, ?_, ?_⟩
  · intro first second one two equal
    by_cases left : first = ip
    · by_cases right : second = ip
      · exact left.trans right.symm
      · rw [left, own] at one equal
        rw [others second right] at two equal
        exact absurd equal.symm (unique one second right two)
    · rw [others first left] at one equal
      by_cases right : second = ip
      · rw [right, own] at two equal
        exact absurd equal (unique two first left one)
      · rw [others second right] at two equal
        exact cached.unique first second one two equal
  · intro other used
    by_cases equal : other = ip
    · rw [equal, own] at used ⊢
      exact inside used
    · rw [others other equal] at used ⊢
      exact cached.inside other used
  · intro other locked
    rw [Locked] at locked
    by_cases equal : other = ip
    · rw [equal, own] at locked
      rw [copy, equal, own]
      exact same locked.1 locked.2
    · rw [others other equal] at locked
      rw [copy, others other equal]
      exact cached.same other locked
  · intro other locked
    rw [Locked] at locked
    by_cases equal : other = ip
    · rw [equal, own] at locked
      rw [copy, equal, own]
      exact type locked.1 locked.2
    · rw [others other equal] at locked
      rw [copy, others other equal]
      exact cached.type other locked

section
variable (formed : fs.WellFormed)
include formed

theorem wp_iget (inside : inum < fs.sb.ninodes.toNat) : wp (iget inum) (fun _ next => next.WellFormed) Harmless fs := by
  rw [iget, wp_bind, wp_get]
  split
  · next ip found =>
      have entry := List.find?_some found
      simp only [decide_eq_true_eq] at entry
      rw [wp_bind, wp_modify, wp_pure]
      apply formed.setInode
      apply formed.cached.setInode
      · intro _ other ne used same
        exact ne (formed.cached.unique other ip used entry.1 same)
      · intro _
        exact formed.cached.inside ip entry.1
      · intro _ valid
        exact formed.cached.same ip ⟨entry.1, valid⟩
      · intro _ valid
        exact formed.cached.type ip ⟨entry.1, valid⟩
  · next missing =>
      split
      · exact noConfusion
      · next empty found =>
          rw [wp_bind, wp_modify, wp_pure]
          apply formed.setInode
          apply formed.cached.setInode
          · intro _ other _ used same
            have absent := List.find?_eq_none.mp missing other (List.mem_finRange _)
            simp only [decide_eq_true_eq] at absent
            exact absent ⟨used, same⟩
          · exact fun _ => inside
          all_goals exact fun _ valid => absurd valid Bool.false_ne_true

theorem wp_ilock : wp (ilock ip) (fun _ next => next.WellFormed) Harmless fs := by
  rw [ilock, wp_bind, wp_get]
  split
  · exact noConfusion
  · next used =>
      split
      · exact formed
      · rw [wp_bind, wp_modify]
        split
        · exact noConfusion
        · next allocated =>
            rw [wp_pure]
            have held : 0 < (fs.icache ip).ref := Nat.pos_of_ne_zero (by omega)
            apply formed.setInode
            apply formed.cached.setInode
            · intro _ other ne used same
              exact ne (formed.cached.unique other ip used held same)
            · exact fun _ => formed.cached.inside ip held
            · exact fun _ _ => rfl
            · exact fun _ _ => allocated

/-- A free inode on disk is replaced by one without blocks. -/
theorem WellFormed.setDinode (inside : inum < fs.sb.ninodes.toNat) (free : (fs.dinode inum).type = 0) {dinode : Dinode}
    (empty : ∀ slot, dinode.addrs slot = 0) (size : dinode.size = 0) :
    (fs.setDinode inum dinode).WellFormed := by
  have inodes : ∀ other < fs.sb.ninodes.toNat, (fs.setDinode inum dinode).dinode other =
      if other = inum then dinode else fs.dinode other :=
    fun other within => setDinode_dinode formed.blocks.layout inside within _
  have image := formed.image.writeInode inside (setSlot (fs.disk (IBLOCK inum fs.sb)) (inum % IPB) dinode.encode)
  have places : held fs.sb (fs.setDinode inum dinode).disk (fs.setDinode inum dinode).dinode =
      held fs.sb (fs.setDinode inum dinode).disk fs.dinode := by
    funext ⟨other, index⟩
    rw [held, held]
    by_cases within : other < fs.sb.ninodes.toNat
    · rw [inodes other within]
      split
      · next same =>
          have none : dinode.unit (fs.setDinode inum dinode).disk index = 0 := Dinode.unit_empty empty
          simp only [same, free, ne_eq, not_true, and_false, if_false, none]
          exact ite_self _
      · rfl
    · simp [within]
  refine ⟨?_, ?_, ?_⟩
  · change Blocks fs.sb _ (held fs.sb _ _)
    rw [places]
    exact image.toBlocks
  · intro other within allocated
    rw [inodes other within] at allocated ⊢
    split at allocated
    · next same =>
        rw [if_pos same, Dinode.mapped_iff_filled]
        intro index
        have none : unitCount (blockCount (0 : BitVec 32).toNat) = 0 := by decide
        rw [Dinode.unit_empty empty, size, none]
        exact ⟨absurd rfl, fun below => absurd below (Nat.not_lt_zero _)⟩
    · next ne =>
        rw [if_neg ne, Dinode.mapped_iff_filled]
        exact image.filled other within allocated
  · have other : ∀ entry, fs.Locked entry → (fs.icache entry).inum ≠ inum := by
      intro entry locked same
      have type := formed.cached.type entry locked
      rw [formed.cached.same entry locked, same] at type
      exact type free
    refine ⟨formed.cached.unique, formed.cached.inside, ?_, formed.cached.type⟩
    intro entry locked
    change fs.copy entry = (fs.setDinode inum dinode).dinode (fs.icache entry).inum
    rw [inodes _ (formed.cached.inside entry locked.1), if_neg (other entry locked)]
    exact formed.cached.same entry locked

theorem wp_ialloc (type : BitVec 16) : wp (ialloc type) (fun _ next => next.WellFormed) Harmless fs := by
  rw [ialloc, wp_bind, wp_get]
  split
  · exact noConfusion
  · next inum found =>
      have free := List.find?_some found
      have member := List.mem_of_find?_eq_some found
      rw [List.mem_range'_1] at member
      simp only [decide_eq_true_eq] at free
      have inside : inum < fs.sb.ninodes.toNat := by omega
      rw [wp_bind, wp_modify]
      exact wp_iget (formed.setDinode inside free (fun _ => rfl) rfl) inside

theorem wp_setCopy (locked : fs.Locked ip) (dinode : Dinode)
    (image : FsImage fs.sb fs.disk (update fs.dinode (fs.icache ip).inum dinode)
      (fileUnits (update fs.dinode (fs.icache ip).inum dinode))) {bad : FsPanic → Prop} :
    wp (iupdate ip) (fun _ next => FsImage next.sb next.disk next.dinode (fileUnits next.dinode) ∧ next.CachedBut ip ∧
      next.icache ip = {fs.icache ip with dinode} ∧ next.dinode (fs.icache ip).inum = dinode) bad
      (fs.setCopy ip dinode) := by
  have entry := setCopy_icache fs ip dinode
  have table := setCopy_table fs ip dinode
  rw [formed.cached.table_eq locked] at table
  refine wp_imp (wp_iupdate ?_ ?_) ?_
  · exact image.layout
  · rw [entry]
    exact formed.cached.inside ip locked.1
  · intro _ next synced
    have inodes := synced.inodes
    rw [table] at inodes
    have after := synced.image (fileUnits (update fs.dinode (fs.icache ip).inum dinode)) (by rw [table]; exact image)
    refine ⟨?_, ?_, ?_, ?_⟩
    · apply after.congr_units
      intro inum live
      have inside := live.inside
      rw [synced.sb] at inside
      rw [fileUnits, fileUnits, inodes inum inside]
    · exact ((formed.cached.but ip).setCopy dinode).synced (by rw [entry]; exact locked.1) synced
    · rw [synced.cache, entry]
    · rw [inodes _ (formed.cached.inside ip locked.1), update_self]

theorem wp_update (locked : fs.Locked ip) (major minor nlink : BitVec 16) {bad : FsPanic → Prop} :
    wp (iupdate ip) (fun _ next => next.WellFormed) bad (fs.setCopy ip {fs.copy ip with major, minor, nlink}) := by
  have same := formed.cached.same ip locked
  have alike : ∀ inum, (update fs.dinode (fs.icache ip).inum {fs.copy ip with major, minor, nlink} inum).Alike
        (fs.dinode inum) ∧
      fileUnits (update fs.dinode (fs.icache ip).inum {fs.copy ip with major, minor, nlink}) inum =
        fileUnits fs.dinode inum := by
    intro inum
    rw [fileUnits, fileUnits, update_apply]
    split
    · next equal =>
        rw [equal, ← same]
        exact ⟨⟨rfl, rfl⟩, rfl⟩
    · exact ⟨⟨rfl, rfl⟩, rfl⟩
  have image := (formed.image.congr fun inum _ => (alike inum).1).congr_units fun inum _ => (alike inum).2
  apply wp_imp (wp_setCopy formed locked _ image)
  rintro _ next ⟨after, but, entry, own⟩
  apply WellFormed.of_image after
  apply but.cached
  · intro _
    rw [copy, entry]
    exact own.symm
  · intro _
    rw [copy, entry]
    exact formed.cached.type ip locked

theorem wp_iput : wp (iput ip) (fun _ next => next.WellFormed) Harmless fs := by
  rw [iput, wp_bind, wp_get]
  split
  · next last =>
      have locked : fs.Locked ip := ⟨by omega, last.2.1⟩
      rw [wp_bind]
      apply wp_imp (wp_itrunc formed locked)
      intro _ middle truncated
      have entry : middle.icache ip =
          {fs.icache ip with dinode := {fs.copy ip with size := 0, addrs := fun _ => 0}} := by
        rw [truncated.cache, update_self]
      have still : middle.Locked ip := by
        rw [Locked, entry]
        exact locked
      have copy : middle.copy ip = {fs.copy ip with size := 0, addrs := fun _ => 0} := congrArg Inode.dinode entry
      have same := truncated.formed.cached.same ip still
      rw [wp_bind, wp_modify, wp_bind]
      have image : FsImage middle.sb middle.disk
          (update middle.dinode (middle.icache ip).inum {middle.copy ip with type := 0})
          (fileUnits (update middle.dinode (middle.icache ip).inum {middle.copy ip with type := 0})) := by
        apply (truncated.formed.image.retire _ rfl).congr_units
        · intro inum live
          rw [fileUnits, fileUnits, update_of_ne]
          rintro rfl
          exact live.type (by rw [update_self])
        · intro slot
          rw [← same, copy]
      apply wp_imp (wp_setCopy truncated.formed still _ image)
      rintro _ next ⟨after, but, _, _⟩
      rw [wp_modify]
      have own : (next.setInode ip {next.icache ip with ref := (next.icache ip).ref - 1, valid := false}).icache ip =
        {next.icache ip with ref := (next.icache ip).ref - 1, valid := false} := update_self ..
      have dropped : (next.setInode ip
          {next.icache ip with ref := (next.icache ip).ref - 1, valid := false}).CachedBut ip := by
        apply but.congr
        · rfl
        · rw [own]
        · rw [own]
          exact fun used => by simp only at used; omega
        · exact fun other ne => update_of_ne ne ..
        · exact fun _ _ _ => rfl
      refine .of_image ?_ (dropped.cached ?_ ?_)
      · exact after
      all_goals
        intro valid
        rw [Locked, own] at valid
        exact absurd valid.2 Bool.false_ne_true
  · rw [wp_modify]
    have used : 0 < (fs.icache ip).ref - 1 → 0 < (fs.icache ip).ref := by omega
    apply formed.setInode
    apply formed.cached.setInode
    · intro held other ne there same
      exact ne (formed.cached.unique other ip there (used held) same)
    · intro held
      exact formed.cached.inside ip (used held)
    · intro held valid
      exact formed.cached.same ip ⟨used held, valid⟩
    · intro held valid
      exact formed.cached.type ip ⟨used held, valid⟩

theorem wp_readi_any (locked : fs.Locked ip) (off n : BitVec 32) :
    wp (readi devsw ip off n) (fun _ next => next.WellFormed) Harmless fs := by
  by_cases type : (fs.copy ip).type = T_DEV
  · rw [readi, wp_bind, wp_get, if_pos type, wp_pure]
    exact formed
  · by_cases refused : off > (fs.copy ip).size ∨ off + n < off
    · rw [readi, wp_bind, wp_get, if_neg type, if_pos refused, wp_pure]
      exact formed
    · rw [gt_iff_lt, BitVec.lt_def, add_exact] at refused
      apply wp_imp (wp_readi formed locked type (by omega) (by omega))
      rintro _ _ ⟨rfl, _⟩
      exact formed

theorem wp_writei_any (locked : fs.Locked ip) {src : List (BitVec 8)} {off n : BitVec 32}
    (enough : n.toNat ≤ src.length) : wp (writei devsw ip src off n) (fun _ next => next.WellFormed) Harmless fs := by
  by_cases type : (fs.copy ip).type = T_DEV
  · rw [writei, wp_bind, wp_get, if_pos type, wp_pure]
    exact formed
  · by_cases refused : off > (fs.copy ip).size ∨ off + n < off
    · rw [writei, wp_bind, wp_get, if_neg type, if_pos refused, wp_pure]
      exact formed
    · by_cases large : (off + n).toNat > MAXFILE * BSIZE
      · rw [writei, wp_bind, wp_get, if_neg type, if_neg refused, if_pos large, wp_pure]
        exact formed
      · rw [gt_iff_lt, BitVec.lt_def, add_exact] at refused
        rw [BitVec.toNat_add, Nat.mod_eq_of_lt (by omega)] at large
        apply wp_mono (wp_writei formed locked type enough (by omega) (by omega))
        · rintro _ next ⟨_, after, _⟩
          exact after
        · rintro _ ⟨rfl, _⟩ same
          cases same

end

/-- A call on a locked inode keeps the state well formed if the call does. -/
theorem wp_locked {A : Type} {call : FsM A} (kept : fs.Locked ip → wp call (fun _ next => next.WellFormed) Harmless fs) :
    wp (locked ip call) (fun _ next => next.WellFormed) Harmless fs := by
  rw [locked, wp_bind, wp_get]
  split
  · next holds =>
      rw [wp_bind]
      apply wp_imp (kept holds)
      intro _ next after
      exact after
  · exact noConfusion

theorem wp_act (formed : fs.WellFormed) (event : FsEvent) :
    wp (act devsw event) (fun _ next => next.WellFormed) Harmless fs := by
  cases event with
  | iget inum =>
    rw [act, wp_bind, wp_get]
    split
    · next inside =>
        rw [wp_bind]
        apply wp_imp (wp_iget formed inside)
        intro _ next after
        exact after
    · exact noConfusion
  | ilock ip => exact wp_ilock formed
  | iput ip =>
    rw [act, wp_bind, wp_get]
    split
    · exact noConfusion
    · exact wp_iput formed
  | ialloc type =>
    rw [act, wp_bind]
    apply wp_imp (wp_ialloc formed type)
    intro _ next after
    exact after
  | update ip major minor nlink =>
    apply wp_locked
    intro holds
    rw [wp_bind, wp_modify]
    exact wp_update formed holds major minor nlink
  | itrunc ip =>
    apply wp_locked
    intro holds
    apply wp_imp (wp_itrunc formed holds)
    intro _ next truncated
    exact truncated.formed
  | readi ip off n => exact wp_locked fun holds => wp_readi_any formed holds off n
  | writei ip src off =>
    apply wp_locked
    intro holds
    apply wp_writei_any formed holds
    rw [BitVec.toNat_ofNat]
    exact Nat.mod_le ..

/-- Disk blocks are neither shared nor lost. Every run of calls from a well-formed state reaches only well-formed states,
and no block is freed that is free already. -/
theorem blocks_conserved (formed : start.WellFormed) (devsw : Devsw) (events : List FsEvent) :
    runEvents (step devsw) events start ≠ .error .freeingFreeBlock ∧
      ∀ fs, runEvents (step devsw) events start = .ok fs → fs.WellFormed := by
  have one : ∀ fs event, fs.WellFormed → step devsw fs event ≠ .error .freeingFreeBlock ∧
      ∀ next, step devsw fs event = .ok next → next.WellFormed := by
    intro fs event here
    have meets : wp (act devsw event) _ _ fs := wp_act here event
    rw [step]
    split
    · next ran =>
        refine ⟨nofun, ?_⟩
        rintro next ⟨⟩
        exact wp_ok meets ran
    · next panic ran =>
        refine ⟨?_, nofun⟩
        rintro ⟨⟩
        exact wp_error meets ran rfl
  have reached : ∀ events fs, runEvents (step devsw) events start = .ok fs → fs.WellFormed := by
    intro events fs ran
    refine runEvents_invariant (fun _ fs => fs.WellFormed) formed ?_ ran
    intro _ fs event next here stepped
    exact (one fs event here).2 next stepped
  refine ⟨?_, reached events⟩
  intro halted
  obtain ⟨earlier, event, middle, _, ran, last⟩ := runEvents_error.mp halted
  exact (one middle event (reached earlier middle ran)).1 last

/-- A file is written, read and truncated, and a second file is allocated, named and written. -/
def smallRun : List FsEvent :=
  [.writei ⟨0, by decide⟩ [7, 8] 0, .readi ⟨0, by decide⟩ 0 2, .ialloc T_FILE, .ilock ⟨1, by decide⟩,
    .update ⟨1, by decide⟩ 0 0 1, .writei ⟨1, by decide⟩ [9] 0, .itrunc ⟨0, by decide⟩]

theorem blocks_conserved_smallRun :
    ∃ fs, runEvents (step ⟨fun _ => none, fun _ => none⟩) smallRun (smallFs 8) = .ok fs ∧ fs.WellFormed ∧
      (fs.dinode 1).size = 0 ∧ (fs.dinode 2).size = 1 := by
  have observed : (runEvents (step ⟨fun _ => none, fun _ => none⟩) smallRun (smallFs 8)).toOption.map
      (fun fs => ((fs.dinode 1).size, (fs.dinode 2).size)) = some (0, 1) := by
    decide +kernel
  obtain ⟨fs, ran, same⟩ := exists_ok_of_observed observed
  obtain ⟨first, second⟩ := Prod.mk.inj same
  have formed := (blocks_conserved (smallFs_wellFormed (by decide) (by decide)) ⟨fun _ => none, fun _ => none⟩
    smallRun).2 fs ran
  exact ⟨fs, ran, formed, first, second⟩

end Fs
end Xv6
