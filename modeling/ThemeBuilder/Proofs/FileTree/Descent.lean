import ThemeBuilder.Proofs.FileTree.Frame
import ThemeBuilder.Proofs.Text.Lines

/-! From the path of a directory to the path of an entry in it: one component more, and one step
more from the place of the directory, however the path got there. -/
namespace ThemeBuilder

namespace Path
open Bytes

@[simp]
theorem not_isAbsolute_name (n : Name) : isAbsolute n.bytes = false := by
  obtain ⟨-, -, -, hslash, -, -⟩ := n.isName
  rw [isAbsolute, beq_eq_false_iff_ne]
  intro hhead
  exact hslash (List.mem_of_mem_head? (Option.mem_def.mpr hhead))

@[simp]
theorem components_name (n : Name) : components n.bytes = [n.bytes] := by
  obtain ⟨hne, -, -, hslash, -, -⟩ := n.isName
  rw [components, splitOn_of_not_mem hslash]
  simp [hne]

theorem components_append_slash (p q : Path) :
    components (p ++ slash :: q) = components p ++ components q := by
  rw [components, splitOn_append_cons (by simp), List.filter_append, components, components]

@[simp]
theorem components_join (p : Path) (n : Name) :
    components (p.join n.bytes) = components p ++ [n.bytes] := by
  rw [join, not_isAbsolute_name, if_neg Bool.false_ne_true]
  split
  · rename_i hp
    obtain rfl | hp := hp
    · rw [List.nil_append, components_name]
      rfl
    · obtain ⟨q, rfl⟩ := List.getLast?_eq_some_iff.mp hp
      rw [List.append_assoc, List.singleton_append, components_append_slash, components_name,
        components_append_slash]
      rw [show components [] = [] from rfl, List.append_nil]
  · rw [components_append_slash, components_name]

theorem join_of_absolute {base name : Path} (hname : isAbsolute name = true) :
    base.join name = name := by
  rw [join, if_pos hname]

theorem join_of_open {base name : Path} (hname : isAbsolute name = false)
    (h : base = [] ∨ base.getLast? = some slash) : base.join name = base ++ name := by
  rw [join, hname, if_neg Bool.false_ne_true, if_pos h]

theorem join_of_closed {base name : Path} (hname : isAbsolute name = false)
    (h : ¬(base = [] ∨ base.getLast? = some slash)) : base.join name = base ++ slash :: name := by
  rw [join, hname, if_neg Bool.false_ne_true, if_neg h]

/-- What follows a slash in a name may be joined on its own. -/
theorem join_append (base : Path) {front name : Path}
    (spelled : front = [] ∨ front.getLast? = some slash) (hname : isAbsolute name = false) :
    base.join (front ++ name) = (base.join front).join name := by
  have hhead : isAbsolute (front ++ name) = isAbsolute front := by
    obtain rfl | hlast := spelled
    · exact hname
    · obtain ⟨front, rfl⟩ := List.getLast?_eq_some_iff.mp hlast
      cases front <;> rfl
  cases habs : isAbsolute front with
  | true =>
    have hlast := spelled.resolve_left (by rintro rfl; cases habs)
    rw [join_of_absolute (hhead.trans habs), join_of_absolute habs, join_of_open hname (.inr hlast)]
  | false =>
    rw [habs] at hhead
    by_cases hbase : base = [] ∨ base.getLast? = some slash
    · have hopen : base ++ front = [] ∨ (base ++ front).getLast? = some slash := by
        obtain rfl | hlast := spelled
        · rwa [List.append_nil]
        · right
          rw [List.getLast?_append, hlast]
          rfl
      rw [join_of_open hhead hbase, join_of_open habs hbase, join_of_open hname hopen,
        List.append_assoc]
    · have hopen : (base ++ slash :: front).getLast? = some slash := by
        obtain rfl | hlast := spelled
        · exact List.getLast?_concat
        · rw [List.getLast?_append, List.getLast?_cons, hlast]
          rfl
      rw [join_of_closed hhead hbase, join_of_closed habs hbase, join_of_open hname (.inr hopen),
        List.append_assoc]
      rfl

@[simp]
theorem hasTrailingSlash_join (p : Path) (n : Name) :
    hasTrailingSlash (p.join n.bytes) = false := by
  obtain ⟨hne, -, -, hslash, -, -⟩ := n.isName
  have hlast (q : Path) : (q ++ n.bytes).getLast? ≠ some slash := by
    rw [List.getLast?_append_of_ne_nil q hne]
    intro h
    exact hslash (List.mem_of_getLast? h)
  rw [join, not_isAbsolute_name, if_neg Bool.false_ne_true, hasTrailingSlash, beq_eq_false_iff_ne]
  split
  · exact hlast p
  · rw [List.append_cons]
    exact hlast _

end Path

namespace FileTree

variable {t : FileTree} {d : Location} {c : Bytes} {r : Except Errno Spot}

/-- When components lead to a directory, the same ones and one more lead on from there. -/
private theorem walkWith_descend {trailing : Bool}
    {jump jump' : Location → Route → Except Errno Spot}
    (hd : t.node? d = some .directory) (hstep : ∀ jump, walkWith t .use false jump d [c] = r)
    (hjump : ∀ dir cs trailing, jump dir ⟨cs, trailing⟩ = .ok (.occupied d) →
      jump' dir ⟨cs ++ [c], false⟩ = r) {dir : Location} {cs : List Bytes}
    (h : walkWith t .use trailing jump dir cs = .ok (.occupied d)) :
    walkWith t .use false jump' dir (cs ++ [c]) = r := by
  induction cs generalizing dir with
  | nil =>
    cases h
    exact hstep _
  | cons x cs ih =>
    rw [walkWith] at h
    rw [List.cons_append, walkWith]
    have hlast : (cs ++ [c]).isEmpty = false := by simp
    dsimp only at h ⊢
    rw [if_neg (by simp)] at h ⊢
    split at h
    · rw [if_pos ‹_›]
      exact ih h
    rw [if_neg ‹_›]
    split at h
    · rw [if_pos ‹_›]
      exact ih h
    rw [if_neg ‹_›]
    split at h
    · rw [dif_pos ‹_›]
      split at h
      · split at h <;> cases h
      · rw [hlast, if_neg (by simp)]
        split at h
        · cases h
          rename_i hlast
          rw [List.isEmpty_iff.mp hlast.1]
          exact hstep _
        · exact ih h
      · rw [hlast]
        simp only [Bool.false_and, Bool.or_false]
        rw [← List.append_assoc]
        exact hjump _ _ _ h
      · -- a file or a pipe where the components end is no directory
        split at h
        · cases h
          simp_all
        · cases h
    · cases h

private theorem walk_descend (hd : t.node? d = some .directory)
    (hstep : ∀ jump, walkWith t .use false jump d [c] = r) {links : Nat} {dir : Location}
    {cs : List Bytes} {trailing : Bool}
    (h : walk t .use links dir ⟨cs, trailing⟩ = .ok (.occupied d)) :
    walk t .use links dir ⟨cs ++ [c], false⟩ = r := by
  induction links generalizing dir cs trailing with
  | zero =>
    refine walkWith_descend hd hstep (fun _ _ _ hj => ?_) h
    cases hj
  | succ n ih => exact walkWith_descend hd hstep (fun _ _ _ => ih) h

/-- A path into a directory leads where the last step leads from there. -/
theorem spot_join {dir : Path} {n : Name} (h : t.locate dir = .ok d)
    (hd : t.node? d = some .directory) {s s' : Spot}
    (hstep : ∀ jump, walkWith t .use false jump d [n.bytes] = .ok s)
    (hs : t.spot .use (dir.join n.bytes) = .ok s') : s' = s := by
  have hw := walk_descend hd hstep (spot_eq_ok.mp (locate_eq_ok.mp h)).2
  have hs := (spot_eq_ok.mp hs).2
  rw [Route.ofPath, Path.components_join, Path.hasTrailingSlash_join] at hs
  cases hs.symm.trans hw
  rfl

/-- The last step to what is no link. -/
theorem walkWith_name {n : Name} (jump : Location → Route → Except Errno Spot)
    (unlinked : ∀ target, t.node? (n :: d) ≠ some (.link target)) :
    walkWith t .use false jump d [n.bytes] =
      .ok (if t.node? (n :: d) = none then .vacant d n else .occupied (n :: d)) := by
  obtain ⟨-, hdot, hdots, -⟩ := n.isName
  rw [walkWith]
  dsimp only
  rw [if_neg (by simp), if_neg hdot, if_neg hdots, dif_pos n.isName]
  cases hn : t.node? (n :: d) with
  | none => rfl
  | some node =>
    cases node with
    | link target => exact absurd hn (unlinked target)
    | file _ | directory | pipe => rfl

/-- Where a directory has nothing of a name, the path of that name leads nowhere. -/
theorem locate_join_ne {dir : Path} {n : Name} (h : t.locate dir = .ok d)
    (hd : t.node? d = some .directory) (hn : t.node? (n :: d) = none) (l : Location) :
    t.locate (dir.join n.bytes) ≠ .ok l := by
  intro hl
  have hstep := fun jump => walkWith_name (t := t) (d := d) (n := n) jump (by simp [hn])
  have := spot_join h hd hstep (locate_eq_ok.mp hl)
  rw [if_pos hn] at this
  cases this

end FileTree
end ThemeBuilder
