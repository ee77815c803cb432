import Xv6.Proof.Vm.Walk

namespace Xv6
open Library

/-- The entry and the contents of a mapped page. -/
def pageView (kernel : Kernel) (tree : List Nat → Option Nat) (page : Nat) : Option (BitVec 64 × Page) :=
  match tree (tablePath page), tree (pagePath page) with
  | some table, some frame => some (slot 64 (kernel.memory table) (page % 512), kernel.memory frame)
  | _, _ => none

section View
variable {root page top table frame : Nat} {kernel k after : Kernel} {tree larger : List Nat → Option Nat}

theorem pageView_some (above : tree (tablePath page) = some table) (found : tree (pagePath page) = some frame) :
    pageView k tree page = some (slot 64 (k.memory table) (page % 512), k.memory frame) := by
  rw [pageView, above, found]

theorem pageView_none (vacant : tree (pagePath page) = none) : pageView k tree page = none := by
  rw [pageView, vacant]
  split
  · next found => cases found
  · rfl

section
variable (space : Table 4 k root tree)
include space

/-- The entry of a mapped page leads to its frame. -/
theorem Table.present (found : tree (pagePath page) = some frame) :
    ∃ table, tree (tablePath page) = some table ∧ k.child table (page % 512) = some frame := by
  have present : tree (tablePath page ++ [page % 512]) ≠ none := by
    rw [← pagePath_eq, found]
    exact Option.some_ne_none frame
  obtain ⟨table, above⟩ := Option.ne_none_iff_exists'.mp (space.radix.ancestor [page % 512] present)
  have inside : page % 512 < 512 := Nat.mod_lt page (by decide)
  exact ⟨table, above, (space.radix.child above (show 3 < 4 by decide) inside).trans found⟩

/-- A page is mapped exactly when it has a view. -/
theorem Table.pageView_ne_none : pageView k tree page ≠ none ↔ tree (pagePath page) ≠ none := by
  cases found : tree (pagePath page) with
  | none => simp [pageView_none found]
  | some frame =>
    obtain ⟨table, above, _⟩ := space.present found
    simp [pageView_some above found]

/-- The hardware finds the entry and the contents of the view. -/
theorem Table.userEntry_eq {va : BitVec 64} (number : va.toNat / PGSIZE = page) (user : page < 2 ^ 35) :
    k.userEntry root va = (pageView k tree page).map Prod.fst ∧
      k.userByte root va = (pageView k tree page).map fun view => slot 8 view.2 (va.toNat % PGSIZE) := by
  have inside : page % 512 < 512 := Nat.mod_lt page (by decide)
  cases found : tree (pagePath page) with
  | none =>
    have entry : k.userEntry root va = none := by
      rw [Kernel.userEntry, space.walkpgdir_false number user]
      cases above : tree (tablePath page) with
      | none => rfl
      | some table =>
        exact if_neg (space.entry_absent above (show 3 < 4 by decide) inside found)
    rw [Kernel.userByte, entry, pageView_none found]
    exact ⟨rfl, rfl⟩
  | some frame =>
    obtain ⟨table, above, link⟩ := space.present found
    rw [Kernel.child] at link
    split at link
    · next present =>
        have entry : k.userEntry root va = some (slot 64 (k.memory table) (page % 512)) := by
          rw [Kernel.userEntry, space.walkpgdir_false number user, above]
          exact if_pos present
        rw [Kernel.userByte, entry, pageView_some above found, ← Option.some.inj link]
        exact ⟨rfl, rfl⟩
    · cases link

/-- A step that keeps the place, the entry and the contents of a page keeps its view. -/
theorem Table.view_congr (above : ∀ {table}, tree (tablePath page) = some table → larger (tablePath page) = some table ∧
      slot 64 (after.memory table) (page % 512) = slot 64 (k.memory table) (page % 512))
    (leaf : larger (pagePath page) = tree (pagePath page))
    (contents : ∀ {frame}, tree (pagePath page) = some frame → after.memory frame = k.memory frame) :
    pageView after larger page = pageView k tree page := by
  cases found : tree (pagePath page) with
  | none => rw [pageView_none found, pageView_none (leaf.trans found)]
  | some frame =>
    obtain ⟨table, here, _⟩ := space.present found
    obtain ⟨there, entry⟩ := above here
    rw [pageView_some here found, pageView_some there (leaf.trans found), entry, contents found]

/-- A step that keeps the pages of a table keeps all views. -/
theorem Table.view_same (kept : ∀ {place node}, tree place = some node → after.memory node = k.memory node)
    (other : Nat) : pageView after tree other = pageView k tree other :=
  space.view_congr (fun above => ⟨above, by rw [kept above]⟩) rfl kept

end

theorem pagePath_inj {other : Nat} (one : page < 2 ^ 35) (two : other < 2 ^ 35)
    (same : pagePath page = pagePath other) : page = other := by
  simp only [pagePath, List.cons.injEq] at same
  omega

/-- A step on one page of a table keeps the views of the other pages. -/
theorem Table.view_other (space : Table 4 k root tree) (here : tree (tablePath page) = some table) {other : Nat}
    (one : page < 2 ^ 35) (two : other < 2 ^ 35) (ne : other ≠ page)
    (memory : ∀ node, node ≠ table → tree (pagePath page) ≠ some node → after.memory node = k.memory node)
    (slots : ∀ index, index ≠ page % 512 → slot 64 (after.memory table) index = slot 64 (k.memory table) index)
    (leaf : Option Nat) : pageView after (Function.update tree (pagePath page) leaf) other = pageView k tree other := by
  have apart : pagePath other ≠ pagePath page := fun same => ne (pagePath_inj two one same)
  have lengths : ∀ first second, tablePath first ≠ pagePath second := fun first second same =>
    absurd (congrArg List.length same) (show 3 ≠ 4 by decide)
  apply space.view_congr
  · intro node above
    refine ⟨(Function.update_of_ne (lengths other page) ..).trans above, ?_⟩
    by_cases same : node = table
    · subst same
      apply slots
      intro index
      have tables := space.radix.injective above here
      exact apart (by rw [pagePath_eq, pagePath_eq, tables, index])
    · rw [memory node same fun found => lengths other page (space.radix.injective above found)]
  · exact Function.update_of_ne apart ..
  · intro frame found
    apply memory frame
    · rintro rfl
      exact lengths page other (space.radix.injective here found)
    · exact fun again => apart (space.radix.injective found again)

/-- The kernel half of the top table has no user page. -/
theorem Table.top_vacant (space : Table 4 k root tree) {index : Nat} (high : 256 ≤ index) :
    tree ([] ++ [index]) = none := by
  by_contra present
  exact absurd (space.radix.parent present).2.2 (Nat.not_lt.mpr high)

/-- The kernel half of the top table does not change. -/
theorem Grows.upper {spare : List Nat} (grows : Grows spare k tree after larger) (space : Table 4 k root tree)
    (grown : Table 4 after root larger) {index : Nat} (high : 256 ≤ index) (bounded : index < 512) :
    slot 64 (after.memory root) index = slot 64 (k.memory root) index :=
  grows.stable space.radix.root (by decide) bounded ((grown.top_vacant high).trans (space.top_vacant high).symm)

/-- A walk changes no view. -/
theorem Walked.view {used : Nat} (walked : Walked 4 k root tree after larger used)
    (space : Table 4 k root tree) (same : ∀ place, ¬place <+: tablePath page → larger place = tree place)
    (other : Nat) : pageView after larger other = pageView k tree other := by
  have kept : ∀ {place node}, tree place = some node → 3 ≤ place.length → after.memory node = k.memory node := by
    intro place node found deep
    apply walked.calm node (space.frames found).2
    intro path again
    rwa [space.radix.injective again found]
  apply space.view_congr
  · intro table above
    exact ⟨walked.grows.keeps above, by rw [kept above (show 3 ≤ 3 by decide)]⟩
  · exact same _ fun inner => absurd inner.length_le (show ¬4 ≤ 3 by decide)
  · intro frame found
    exact kept found (show 3 ≤ 4 by decide)

theorem Walked.foreign {depth used : Nat} (walked : Walked depth k root tree after larger used)
    (unowned : ¬Owned k tree frame) : after.memory frame = k.memory frame :=
  walked.calm frame (fun free => unowned (.inl free)) fun found => absurd (.inr ⟨_, found⟩) unowned

/-- Distinct pages of the allocator bound the number of mapped pages. -/
theorem Table.leaves_le (space : Table 4 k root tree)
    (present : ∀ page, 1 ≤ page → page < top → tree (pagePath page) ≠ none) : top ≤ 0xE001 := by
  by_contra large
  have frames : ∀ index : Fin 0xE001, ∃ frame : Fin 0xE000, tree (pagePath (index.val + 1)) = some frame.val := by
    intro index
    have bound := index.isLt
    obtain ⟨frame, found⟩ := Option.ne_none_iff_exists'.mp (present (index.val + 1) (by omega) (by omega))
    exact ⟨⟨frame, (space.frames found).1.lt⟩, found⟩
  choose frame found using frames
  obtain ⟨first, second, ne, same⟩ := Fintype.exists_ne_map_eq_of_card_lt frame (by simp)
  have one := first.isLt
  have two := second.isLt
  have path := space.radix.injective (found first) ((found second).trans (by rw [same]))
  have equal := pagePath_inj (by omega) (by omega) path
  exact ne (Fin.ext (by omega))

/-- The entry of a view is present and leads to the frame of the page. -/
theorem Table.view_entry (space : Table 4 k root tree) {pte : BitVec 64} {content : Page}
    (view : pageView k tree page = some (pte, content)) :
    pte &&& PTE_P ≠ 0 ∧ tree (pagePath page) = some (pteFrame pte) := by
  cases found : tree (pagePath page) with
  | none =>
    rw [pageView_none found] at view
    cases view
  | some frame =>
    obtain ⟨table, above, link⟩ := space.present found
    rw [pageView_some above found] at view
    rw [Kernel.child] at link
    split at link
    · next present =>
        cases view
        exact ⟨present, link.symm⟩
    · cases link

end View
end Xv6
