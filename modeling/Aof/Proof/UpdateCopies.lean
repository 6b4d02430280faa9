import Aof.Packaging.Updater

/-!
# What copies and removals leave

A copy that is made leaves its target as the source is, and one that fails leaves at each place what
was there or what was to be there.  Nothing else changes.
-/

namespace Aof.Updater

open Command Disk DiskPath

variable {disk : Disk} {tree : List (DiskPath × Entry)} {dest r : DiskPath}

def Beside (q r : DiskPath) : Prop := r ≠ [] ∧ ((below q r).isSome ∨ (below r q).isSome)

theorem isSome_below_of_dropLast (habove : (below r dest.dropLast).isSome) :
    (below r dest).isSome := by
  obtain ⟨rel, hrel⟩ := Option.isSome_iff_exists.mp habove
  rw [below_eq_some] at hrel
  by_cases hdest : dest = []
  · have hr : r = [] := (List.append_eq_nil_iff.mp (by simpa [hdest] using hrel.symm)).1
    rw [hr, hdest]
    rfl
  · rw [← List.dropLast_append_getLast hdest, hrel, List.append_assoc, below_append]
    rfl

theorem beside_of_above (hne : r ≠ []) (habove : (below r dest.dropLast).isSome) : Beside dest r :=
  ⟨hne, Or.inr (isSome_below_of_dropLast habove)⟩

theorem Beside.above (hbeside : Beside dest r) (hout : below dest r = none) :
    (below r dest.dropLast).isSome := by
  have habove : (below r dest).isSome := hbeside.2.resolve_left (by simp [hout])
  have hdest : dest ≠ [] := by
    rintro rfl
    cases hout
  rw [← List.dropLast_append_getLast hdest, isSome_below_concat,
    List.dropLast_append_getLast hdest] at habove
  apply habove.resolve_left
  rintro rfl
  simp at hout

theorem not_above (rel : DiskPath) (hne : dest ++ rel ≠ []) :
    ¬ (below (dest ++ rel) dest.dropLast).isSome := by
  intro habove
  obtain ⟨tail, htail⟩ := Option.isSome_iff_exists.mp habove
  have hlength := congrArg List.length (below_eq_some.mp htail)
  have hpos := List.length_pos_of_ne_nil hne
  simp only [List.length_dropLast, List.length_append] at hlength hpos
  omega

theorem getEntries_filter (hnodup : (tree.map Prod.fst).Nodup) (test : DiskPath → Bool)
    (rel : DiskPath) :
    Dict.getEntries rel (tree.filter fun entry => test entry.1) =
      if test rel then Dict.getEntries rel tree else none := by
  have hfiltered : ((tree.filter fun entry => test entry.1).map Prod.fst).Nodup :=
    (List.filter_sublist.map _).nodup hnodup
  ext entry
  rw [Dict.getEntries_eq_some_iff hfiltered, List.mem_filter, Option.ite_none_right_eq_some,
    Dict.getEntries_eq_some_iff hnodup, and_comm]

theorem foldlM_copyOver (hplain : ∀ entry ∈ tree, entry.2 ≠ .special) :
    tree.foldlM (fun disk entry => copyOver dest entry disk) disk =
      tree.foldlM (fun disk entry => copyEntry disk (dest ++ entry.1) entry.2) disk := by
  induction tree generalizing disk with
  | nil => rfl
  | cons entry rest ih =>
      rw [List.foldlM_cons, List.foldlM_cons, copyOver,
        if_neg (hplain entry List.mem_cons_self)]
      congr 1
      funext next
      exact ih fun other hother => hplain other (List.mem_cons_of_mem _ hother)

theorem run_cpFrom (hnodup : (tree.map Prod.fst).Nodup)
    (hplain : ∀ entry ∈ tree, entry.2 ≠ .special)
    (hfree : ∀ r, r ≠ [] → (below r dest.dropLast).isSome →
      disk.get? r = none ∨ disk.get? r = some .dir)
    (hkinds : ∀ rel new old, (rel, new) ∈ tree → disk.get? (dest ++ rel) = some old →
      dest ++ rel ≠ [] ∧ SameKind old new) :
    ∃ copied, (cpFrom tree dest).run disk = (some (), copied) ∧ ∀ r, copied.get? r =
      ((below dest r).bind fun rel => Dict.getEntries rel tree).or
        (if r ≠ [] ∧ (below r dest.dropLast).isSome then some .dir else disk.get? r) := by
  obtain ⟨made, hmade, -⟩ := @foldlM_mkdir disk dest.dropLast.inits.tail fun r hr =>
    hfree r (mem_inits_tail.mp hr).1 (mem_inits_tail.mp hr).2
  have hget := get?_mkdirs hmade
  have hcopied : tree.foldlM (fun disk entry => copyOver dest entry disk) made =
      some (putAll made dest tree) := by
    rw [foldlM_copyOver hplain]
    apply foldlM_copyEntry hnodup
    intro rel new old hmem hold
    rw [hget] at hold
    by_cases hne : dest ++ rel = []
    · rw [if_neg fun h => h.1 hne] at hold
      exact (hkinds rel new old hmem hold).2
    · rw [if_neg fun h => not_above rel hne h.2] at hold
      exact (hkinds rel new old hmem hold).2
  refine ⟨putAll made dest tree, ?_, fun r => ?_⟩
  · rw [cpFrom, run_bind_of_some (run_change hmade)]
    exact run_forM_change hcopied
  · rw [get?_putAll hnodup, hget]

variable {goal : DiskPath → Option Entry}

theorem cpFrom_settles (hnodup : (tree.map Prod.fst).Nodup)
    (hplain : ∀ entry ∈ tree, entry.2 ≠ .special)
    (htree : ∀ rel, Dict.getEntries rel tree = goal (dest ++ rel))
    (hdirs : ∀ r, r ≠ [] → (below r dest.dropLast).isSome → goal r = some .dir)
    (hfits : ∀ r, Beside dest r → disk.get? r = none ∨ disk.get? r = goal r) (hdest : dest ≠ []) :
    ∃ copied, (cpFrom tree dest).run disk = (some (), copied) ∧
      Settles goal (Beside dest) disk copied := by
  have hbelow : ∀ rel, Beside dest (dest ++ rel) := by
    intro rel
    exact ⟨fun h => hdest (List.append_eq_nil_iff.mp h).1, Or.inl (by simp)⟩
  obtain ⟨copied, hrun, hget⟩ := @run_cpFrom disk tree dest hnodup hplain
    (fun r hne habove => by
      rw [← hdirs r hne habove]
      exact hfits r (beside_of_above hne habove))
    (fun rel new old hmem hold => by
      refine ⟨(hbelow rel).1, ?_⟩
      rcases hfits _ (hbelow rel) with hnone | hsame
      · rw [hnone] at hold
        cases hold
      · rw [hsame, ← htree, (Dict.getEntries_eq_some_iff hnodup).mpr hmem] at hold
        rw [Option.some.inj hold]
        exact Iff.rfl)
  refine ⟨copied, hrun, fun r => ?_⟩
  cases hr : below dest r with
  | none =>
      refine ⟨fun hbeside => ?_, fun hout => ?_⟩
      · have habove := hbeside.above hr
        rw [hget, hr, if_pos ⟨hbeside.1, habove⟩, hdirs r hbeside.1 habove]
        rfl
      · rw [hget, hr, if_neg fun h => hout (beside_of_above h.1 h.2)]
        rfl
  | some rel =>
      obtain rfl := below_eq_some.mp hr
      refine ⟨fun hbeside => ?_, fun hout => absurd (hbelow rel) hout⟩
      rw [hget, hr, Option.bind_some, htree, if_neg fun h => not_above rel (hbelow rel).1 h.2]
      rcases hfits _ hbeside with hnone | hsame
      · rw [hnone, Option.or_none]
      · rw [hsame, Option.or_self]

theorem get?_cpPart (hnodup : (tree.map Prod.fst).Nodup) (done : DiskPath → Bool) :
    (cpPart done tree dest disk).get? r =
      ((below dest r).bind fun rel => if done r then Dict.getEntries rel tree else none).or
        (((disk.mkdirs dest.dropLast).getD disk).get? r) := by
  rw [cpPart, get?_putAll ((List.filter_sublist.map _).nodup hnodup)]
  congr 1
  cases hr : below dest r with
  | none => rfl
  | some rel =>
      rw [Option.bind_some, Option.bind_some, below_eq_some.mp hr]
      exact getEntries_filter hnodup (fun rel => done (dest ++ rel)) rel

theorem cpPart_between (hnodup : (tree.map Prod.fst).Nodup)
    (htree : ∀ rel, Dict.getEntries rel tree = goal (dest ++ rel))
    (hdirs : ∀ r, r ≠ [] → (below r dest.dropLast).isSome → goal r = some .dir)
    (hdest : dest ≠ []) (done : DiskPath → Bool) (r : DiskPath) :
    (cpPart done tree dest disk).get? r = disk.get? r ∨
      (Beside dest r ∧ (cpPart done tree dest disk).get? r = goal r) := by
  have hmade : ((disk.mkdirs dest.dropLast).getD disk).get? r = disk.get? r ∨
      (Beside dest r ∧ ((disk.mkdirs dest.dropLast).getD disk).get? r = goal r) := by
    cases hmkdirs : disk.mkdirs dest.dropLast with
    | none => exact Or.inl rfl
    | some made =>
        rw [Option.getD_some, get?_mkdirs hmkdirs]
        split
        · rename_i habove
          exact Or.inr ⟨beside_of_above habove.1 habove.2, (hdirs r habove.1 habove.2).symm⟩
        · exact Or.inl rfl
  rw [get?_cpPart hnodup]
  cases hr : below dest r with
  | none => exact hmade
  | some rel =>
      obtain rfl := below_eq_some.mp hr
      rw [Option.bind_some]
      cases hgoal : (if done (dest ++ rel) then Dict.getEntries rel tree else none) with
      | none => exact hmade
      | some entry =>
          obtain ⟨-, hentry⟩ := Option.ite_none_right_eq_some.mp hgoal
          refine Or.inr ⟨⟨fun h => hdest (List.append_eq_nil_iff.mp h).1, Or.inl (by simp)⟩, ?_⟩
          rw [← htree, hentry]
          rfl

theorem get?_rmPart (done : DiskPath → Bool) (p : DiskPath) :
    (rmPart done p disk).get? r =
      if (below p r).isSome && done r then none else disk.get? r := by
  ext entry
  rw [Dict.get?_eq_some_iff, rmPart, List.mem_filter, Option.ite_none_left_eq_some,
    Dict.get?_eq_some_iff, and_comm]
  cases below p r <;> simp

section Operations

variable {failure : Option UpdateFailure} {label : UpdateStep} {action : UpdateCommand Unit}
variable {part : (DiskPath → Bool) → UpdateState → UpdateState} {s : UpdateState}
variable {post : Unit → UpdateState → Prop} {fail : UpdateState → Prop}

def Fires (failure : Option UpdateFailure) (label : UpdateStep) : Prop :=
  ∃ failing, failure = some failing ∧ failing.step = label

theorem ends_operation (haction : ¬ Fires failure label → Ends action s post fail)
    (hpart : ∀ failing, failure = some failing → failing.step = label →
      fail (part failing.done s)) : Ends (operation failure label action part) s post fail := by
  cases failure with
  | none => exact haction fun ⟨_, hnone, _⟩ => nomatch hnone
  | some failing =>
      by_cases hlabel : failing.step = label
      · have hrun : (operation (some failing) label action part).run s =
            (none, part failing.done s) := if_pos hlabel
        unfold Ends
        rw [hrun]
        exact hpart failing rfl hlabel
      · have hrun : (operation (some failing) label action part).run s = action.run s :=
          if_neg hlabel
        unfold Ends
        rw [hrun]
        apply haction
        rintro ⟨other, hother, hstep⟩
        exact hlabel (Option.some.inj hother ▸ hstep)

theorem ends_simple (haction : ¬ Fires failure label → Ends action s post fail)
    (hpart : Fires failure label → fail s) : Ends (simple failure label action) s post fail :=
  ends_operation haction fun failing hsome hlabel => hpart ⟨failing, hsome, hlabel⟩

theorem ends_simple_modify (f : UpdateState → UpdateState) :
    Ends (simple failure label (Command.modify f)) s (fun _ t => t = f s ∧ ¬ Fires failure label)
      (fun t => t = s ∧ Fires failure label) :=
  ends_simple (fun hquiet => ⟨rfl, hquiet⟩) fun hfires => ⟨rfl, hfires⟩

theorem ends_simple_pure :
    Ends (simple failure label (pure ())) s (fun _ t => t = s ∧ ¬ Fires failure label)
      (fun t => t = s ∧ Fires failure label) :=
  ends_simple (fun hquiet => ⟨rfl, hquiet⟩) fun hfires => ⟨rfl, hfires⟩

theorem ends_onRoot {command : Command Disk Unit}
    (hends : Ends command s.root (fun _ root => post () { s with root := root })
      fun root => fail { s with root := root }) :
    Ends (onRoot command) s post fail := by
  have honPart : (onRoot command).run s =
      ((command.run s.root).1, { s with root := (command.run s.root).2 }) := rfl
  unfold Ends at hends ⊢
  rw [honPart]
  match hrun : command.run s.root with
  | (some _, root) =>
      rw [hrun] at hends
      exact hends
  | (none, root) =>
      rw [hrun] at hends
      exact hends

theorem ends_simple_change {f : Disk → Option Disk}
    (hpost : ¬ Fires failure label → ∀ root, f s.root = some root → post () { s with root := root })
    (hfail : f s.root = none ∨ Fires failure label → fail s) :
    Ends (simple failure label (onRoot (change f))) s post fail := by
  apply ends_simple
  · intro hquiet
    exact ends_onRoot (ends_change (hpost hquiet) fun hnone => hfail (Or.inl hnone))
  · exact fun hfires => hfail (Or.inr hfires)

theorem ends_onPreserved {command : Command Disk Unit} {preserved : Disk}
    (hrun : command.run s.preserved = (some (), preserved))
    (hpost : post () { s with preserved := preserved }) :
    Ends (onPreserved command) s post fail := by
  have honPart : (onPreserved command).run s = (some (), { s with preserved := preserved }) := by
    show ((command s.preserved).1, { s with preserved := (command s.preserved).2 }) = _
    rw [show command s.preserved = _ from hrun]
  exact ends_of_run honPart hpost

theorem ends_access {p : DiskPath} (hpost : (s.root.stat p).isSome → post () s)
    (hfail : s.root.stat p = none → fail s) : Ends (access p) s post fail := by
  have hrun : (access p).run s =
      ((if (s.root.stat p).isSome then pure () else throw) : UpdateCommand Unit).run s := rfl
  unfold Ends
  rw [hrun]
  cases hstat : s.root.stat p with
  | none => exact hfail hstat
  | some entry => exact hpost (by rw [hstat]; rfl)

theorem ends_rmFromRoot {p : DiskPath}
    (hpost : ¬ Fires failure label → post () { s with root := s.root.removeAll p })
    (hfail : ∀ failing, failure = some failing → failing.step = label →
      fail { s with root := rmPart failing.done p s.root }) :
    Ends (rmFromRoot failure label p) s post fail :=
  ends_operation (fun hquiet => ends_onRoot (hpost hquiet)) hfail

variable {goal : DiskPath → Option Entry} {source : DiskPath}

theorem ends_cpToRoot (hnodup : (tree.map Prod.fst).Nodup)
    (hplain : ∀ entry ∈ tree, entry.2 ≠ .special)
    (htree : ∀ rel, Dict.getEntries rel tree = goal (dest ++ rel))
    (hdirs : ∀ r, r ≠ [] → (below r dest.dropLast).isSome → goal r = some .dir)
    (hfits : ∀ r, Beside dest r → s.root.get? r = none ∨ s.root.get? r = goal r)
    (hdest : dest ≠ []) : Ends (cpToRoot failure label tree dest) s
      (fun _ t => ¬ Fires failure label ∧
        ∃ root, t = { s with root := root } ∧ Settles goal (Beside dest) s.root root)
      (fun t => Fires failure label ∧ ∃ root, t = { s with root := root } ∧
        ∀ r, root.get? r = s.root.get? r ∨ (Beside dest r ∧ root.get? r = goal r)) := by
  apply ends_operation
  · intro hquiet
    obtain ⟨root, hrun, hsettles⟩ := cpFrom_settles hnodup hplain htree hdirs hfits hdest
    exact ends_onRoot (ends_of_run hrun ⟨hquiet, root, rfl, hsettles⟩)
  · intro failing hsome hlabel
    exact ⟨⟨failing, hsome, hlabel⟩, _, rfl, cpPart_between hnodup htree hdirs hdest _⟩

theorem ends_cpInRoot (hout : below source dest = none)
    (hsource : ∀ rel, s.root.get? (source ++ rel) = goal (dest ++ rel))
    (hplain : ∀ rel, goal (dest ++ rel) ≠ some .special)
    (hdirs : ∀ r, r ≠ [] → (below r dest.dropLast).isSome → goal r = some .dir)
    (hfits : ∀ r, Beside dest r → s.root.get? r = none ∨ s.root.get? r = goal r)
    (hdest : dest ≠ []) : Ends (cpInRoot failure label source dest) s
      (fun _ t => ¬ Fires failure label ∧
        ∃ root, t = { s with root := root } ∧ Settles goal (Beside dest) s.root root)
      (fun t => Fires failure label ∧ ∃ root, t = { s with root := root } ∧
        ∀ r, root.get? r = s.root.get? r ∨ (Beside dest r ∧ root.get? r = goal r)) := by
  have hcp : (cp source dest).run s.root =
      (cpFrom (s.root.subtree source) dest).run s.root := by
    show (if (below source dest).isSome then throw else cpFrom _ dest : Command Disk Unit).run _ = _
    rw [hout]
    rfl
  have hends := @ends_cpToRoot (s.root.subtree source) dest failure label s goal
    (nodup_subtree s.root source)
    (fun entry hentry hspecial => by
      apply hplain entry.1
      rw [← hsource, mem_subtree.mp hentry, hspecial])
    (fun rel => by rw [getEntries_subtree, hsource]) hdirs hfits hdest
  unfold Ends at hends ⊢
  have hrun : (cpInRoot failure label source dest).run s =
      (cpToRoot failure label (s.root.subtree source) dest).run s := by
    have honRoot : onRoot (cp source dest) s = onRoot (cpFrom (s.root.subtree source) dest) s :=
      congrArg (fun ends : Option Unit × Disk => (ends.1, { s with root := ends.2 })) hcp
    cases failure with
    | none => exact honRoot
    | some failing =>
        show (if _ then _ else onRoot (cp source dest) s) = (if _ then _ else _)
        rw [honRoot]
  rw [hrun]
  exact hends

end Operations

end Aof.Updater
