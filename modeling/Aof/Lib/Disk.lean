import Aof.Lib.Dict
import Mathlib.Data.List.Infix
import Mathlib.Data.List.Induction

/-!
# Files and directories

A disk maps paths to what lies there.  The trees below a path are listed with paths relative to it,
so that a tree can be copied, moved and removed as a whole or entry by entry.
-/

abbrev DiskPath := List String

/-- What lies at a path; the last kind stands for sockets and devices. -/
inductive Entry where
  | dir
  | file (content : String)
  | special
  deriving DecidableEq, Repr

namespace DiskPath

def below : DiskPath → DiskPath → Option DiskPath
  | [], q => some q
  | _ :: _, [] => none
  | a :: p, b :: q => if a = b then below p q else none

variable {p q rel : DiskPath} {a : String}

theorem below_eq_some : below p q = some rel ↔ q = p ++ rel := by
  induction p generalizing q with
  | nil => simp [below, eq_comm]
  | cons a p ih =>
      cases q with
      | nil => simp [below]
      | cons b q =>
          by_cases hab : a = b
          · simp [below, hab, ih]
          · simp [below, hab, Ne.symm hab]

@[simp]
theorem below_append (p rel : DiskPath) : below p (p ++ rel) = some rel := below_eq_some.mpr rfl

@[simp]
theorem below_self (p : DiskPath) : below p p = some [] := below_eq_some.mpr (by simp)

theorem below_eq_none : below p q = none ↔ ∀ rel, q ≠ p ++ rel := by
  rw [← Option.not_isSome_iff_eq_none, Option.isSome_iff_exists]
  simp only [below_eq_some, not_exists, ne_eq]

@[simp]
theorem isSome_below_nil : (below [] q).isSome := rfl

@[simp]
theorem not_isSome_below_nil : (below (a :: p) []).isSome = false := rfl

@[simp]
theorem isSome_below_cons_cons {b : String} :
    (below (a :: p) (b :: q)).isSome ↔ a = b ∧ (below p q).isSome := by
  by_cases hab : a = b <;> simp [below, hab]

theorem below_longer (p : DiskPath) (name : String) (rel : DiskPath) :
    below (p ++ name :: rel) p = none := by
  rw [below_eq_none]
  intro tail htail
  have hlength := congrArg List.length htail
  simp only [List.length_append, List.length_cons] at hlength
  omega

theorem isSome_below_concat {name : String} :
    (below p (q ++ [name])).isSome ↔ p = q ++ [name] ∨ (below p q).isSome := by
  simp only [Option.isSome_iff_exists, below_eq_some]
  constructor
  · rintro ⟨rel, hrel⟩
    rcases List.eq_nil_or_concat' rel with rfl | ⟨rel, last, rfl⟩
    · exact Or.inl (by rw [hrel, List.append_nil])
    · rw [← List.append_assoc] at hrel
      exact Or.inr ⟨rel, List.append_inj_left' hrel rfl⟩
  · rintro (rfl | ⟨rel, rfl⟩)
    · exact ⟨[], by simp⟩
    · exact ⟨rel ++ [name], by simp⟩

def Apart (p q : DiskPath) : Prop := below p q = none ∧ below q p = none

instance (p q : DiskPath) : Decidable (Apart p q) := inferInstanceAs (Decidable (_ ∧ _))

theorem Apart.symm (hapart : Apart p q) : Apart q p := ⟨hapart.2, hapart.1⟩

theorem Apart.below_eq_none {r : DiskPath} (hapart : Apart p q) (hbelow : below p r = some rel) :
    below q r = none := by
  cases hq : below q r with
  | none => rfl
  | some rel' =>
      exfalso
      have hboth : p ++ rel = q ++ rel' := by
        rw [← below_eq_some.mp hbelow, below_eq_some.mp hq]
      rcases List.append_eq_append_iff.mp hboth with ⟨mid, hq', -⟩ | ⟨mid, hp', -⟩
      · exact absurd hapart.1 (by rw [below_eq_some.mpr hq']; exact Option.some_ne_none mid)
      · exact absurd hapart.2 (by rw [below_eq_some.mpr hp']; exact Option.some_ne_none mid)

theorem Apart.append (hapart : Apart p q) (mid mid' : DiskPath) : Apart (p ++ mid) (q ++ mid') := by
  have hnone : ∀ {p q : DiskPath}, Apart p q → ∀ mid mid', below (p ++ mid) (q ++ mid') = none := by
    intro p q hapart mid mid'
    rw [DiskPath.below_eq_none]
    intro rel hrel
    have hq := hapart.below_eq_none (below_append p (mid ++ rel))
    rw [← List.append_assoc, ← hrel, below_append] at hq
    cases hq
  exact ⟨hnone hapart mid mid', hnone hapart.symm mid' mid⟩

theorem below_antisymm (hpq : (below p q).isSome) (hqp : (below q p).isSome) : p = q := by
  obtain ⟨rel, hrel⟩ := Option.isSome_iff_exists.mp hpq
  obtain ⟨rel', hrel'⟩ := Option.isSome_iff_exists.mp hqp
  rw [below_eq_some] at hrel hrel'
  rw [hrel, List.append_assoc] at hrel'
  rw [hrel, (List.append_eq_nil_iff.mp (List.append_right_eq_self.mp hrel'.symm)).1,
    List.append_nil]

end DiskPath

abbrev Disk := Dict DiskPath Entry

namespace Disk

open DiskPath

def isDir (disk : Disk) (p : DiskPath) : Bool := p = [] || disk.get? p = some .dir

def subtree (disk : Disk) (p : DiskPath) : List (DiskPath × Entry) :=
  disk.entries.filterMap fun entry => (below p entry.1).map fun rel => (rel, entry.2)

def names (disk : Disk) (p : DiskPath) : List String :=
  (disk.subtree p).filterMap fun entry =>
    match entry.1 with
    | [name] => some name
    | _ => none

def putAll (disk : Disk) (p : DiskPath) (tree : List (DiskPath × Entry)) : Disk :=
  tree.foldl (fun disk entry => disk.set (p ++ entry.1) entry.2) disk

/-- `rm -r` -/
def removeAll (disk : Disk) (p : DiskPath) : Disk :=
  ⟨disk.entries.filter fun entry => below p entry.1 = none,
    (List.filter_sublist.map _).nodup disk.nodup⟩

/-- What lies at the target is replaced. -/
def rename (disk : Disk) (p q : DiskPath) : Disk :=
  ((disk.removeAll p).removeAll q).putAll q (disk.subtree p)

def mkdir (disk : Disk) (p : DiskPath) : Option Disk :=
  match disk.get? p with
  | none => some (disk.set p .dir)
  | some .dir => some disk
  | some _ => none

/-- `mkdir -p` -/
def mkdirs (disk : Disk) (p : DiskPath) : Option Disk := p.inits.tail.foldlM mkdir disk

/-- One entry is copied over whatever is at its place, but not a directory over anything else and
nothing else over a directory. -/
def copyEntry (disk : Disk) (p : DiskPath) (entry : Entry) : Option Disk :=
  match disk.get? p with
  | none => some (disk.set p entry)
  | some old => if (old = .dir ↔ entry = .dir) then some (disk.set p entry) else none

/-- The entries of a tree that are kept, copied entry by entry into a tree that may exist; the
directories above it are made. -/
def cp (keep : Entry → Bool) (disk : Disk) (p q : DiskPath) : Option Disk :=
  if (below p q).isSome then none
  else do
    let tree := (disk.subtree p).filter fun entry => keep entry.2
    let disk ← disk.mkdirs q.dropLast
    tree.foldlM (fun disk entry => copyEntry disk (q ++ entry.1) entry.2) disk

/-- Everything lies in a directory, and the root itself is not listed. -/
def IsTree (disk : Disk) : Prop :=
  ∀ entry ∈ disk.entries, entry.1 ≠ [] ∧ disk.isDir entry.1.dropLast = true

instance (disk : Disk) : Decidable disk.IsTree := List.decidableBAll _ _

variable {disk : Disk} {p q : DiskPath}

variable {entry : Entry} {name : String} {tree : List (DiskPath × Entry)} {made after : Disk}
  {r : DiskPath} {part part' : DiskPath → Prop}

theorem mem_subtree {rel : DiskPath} :
    (rel, entry) ∈ disk.subtree p ↔ disk.get? (p ++ rel) = some entry := by
  simp only [subtree, List.mem_filterMap, Option.map_eq_some_iff, below_eq_some, Prod.mk.injEq,
    Dict.get?_eq_some_iff]
  constructor
  · rintro ⟨⟨path, entry'⟩, hmem, rel', rfl, rfl, rfl⟩
    exact hmem
  · intro hmem
    exact ⟨(p ++ rel, entry), hmem, rel, rfl, rfl, rfl⟩

theorem nodup_subtree (disk : Disk) (p : DiskPath) : ((disk.subtree p).map Prod.fst).Nodup := by
  have hkeys : (disk.subtree p).map Prod.fst = disk.keys.filterMap (below p) := by
    rw [subtree, Dict.keys, List.map_filterMap, List.filterMap_map]
    congr 1
    funext entry
    simp [Function.comp_def]
  rw [hkeys]
  apply disk.nodup.filterMap
  intro a b rel ha hb
  rw [below_eq_some.mp ha, below_eq_some.mp hb]

theorem getEntries_subtree (rel : DiskPath) :
    Dict.getEntries rel (disk.subtree p) = disk.get? (p ++ rel) := by
  ext entry
  rw [Dict.getEntries_eq_some_iff (nodup_subtree disk p), mem_subtree]

theorem mem_names : name ∈ disk.names p ↔ (disk.get? (p ++ [name])).isSome := by
  rw [names, List.mem_filterMap, Option.isSome_iff_exists]
  constructor
  · rintro ⟨⟨rel, entry⟩, hmem, hrel⟩
    split at hrel
    · rename_i other hother
      obtain rfl := Option.some.inj hrel
      obtain rfl : rel = [other] := hother
      exact ⟨entry, mem_subtree.mp hmem⟩
    · cases hrel
  · rintro ⟨entry, hentry⟩
    exact ⟨([name], entry), mem_subtree.mpr hentry, rfl⟩

theorem get?_putAll (hnodup : (tree.map Prod.fst).Nodup) (r : DiskPath) :
    (disk.putAll p tree).get? r =
      ((below p r).bind fun rel => Dict.getEntries rel tree).or (disk.get? r) := by
  induction tree generalizing disk with
  | nil => cases below p r <;> rfl
  | cons entry tree ih =>
      rw [List.map_cons, List.nodup_cons] at hnodup
      show (putAll (disk.set (p ++ entry.1) entry.2) p tree).get? r = _
      rw [ih hnodup.2, Dict.get?_set]
      cases hbelow : below p r with
      | none =>
          rw [if_neg fun h => below_eq_none.mp hbelow _ h.symm]
          rfl
      | some rel =>
          obtain rfl := below_eq_some.mp hbelow
          by_cases heq : entry.1 = rel
          · have hnone : Dict.getEntries rel tree = none := by
              rw [Option.eq_none_iff_forall_ne_some]
              intro value hvalue
              rw [Dict.getEntries_eq_some_iff hnodup.2] at hvalue
              exact hnodup.1 (heq ▸ List.mem_map_of_mem (f := Prod.fst) hvalue)
            simp [Dict.getEntries, heq, hnone]
          · simp [Dict.getEntries, heq]

theorem get?_removeAll (r : DiskPath) :
    (disk.removeAll p).get? r = if (below p r).isSome then none else disk.get? r := by
  ext entry
  rw [Dict.get?_eq_some_iff, removeAll, List.mem_filter, decide_eq_true_eq]
  cases hbelow : below p r with
  | none => simp [Dict.get?_eq_some_iff]
  | some rel => simp

theorem get?_rename (r : DiskPath) : (disk.rename p q).get? r =
    match below q r with
    | some rel => disk.get? (p ++ rel)
    | none => if (below p r).isSome then none else disk.get? r := by
  rw [rename, get?_putAll (nodup_subtree disk p), get?_removeAll]
  cases hbelow : below q r with
  | none => simp [get?_removeAll]
  | some rel => simp [getEntries_subtree]

theorem isDir_iff : disk.isDir p = true ↔ p = [] ∨ disk.get? p = some .dir := by
  simp [isDir]

section

variable (htree : disk.IsTree)
include htree

theorem IsTree.get?_root : disk.get? [] = none := by
  rw [Option.eq_none_iff_forall_ne_some]
  intro entry hentry
  exact (htree _ (Dict.get?_eq_some_iff.mp hentry)).1 rfl

theorem IsTree.isDir_dropLast (hentry : disk.get? p = some entry) : disk.isDir p.dropLast = true :=
  (htree _ (Dict.get?_eq_some_iff.mp hentry)).2

theorem IsTree.isDir_of_append (hentry : disk.get? (p ++ q) = some entry) (hne : q ≠ []) :
    disk.isDir p = true := by
  induction q using List.reverseRecOn generalizing entry with
  | nil => exact absurd rfl hne
  | append_singleton q name ih =>
      have hdir : disk.isDir (p ++ q) = true := by
        have hlast := htree.isDir_dropLast hentry
        rwa [← List.append_assoc, List.dropLast_concat] at hlast
      by_cases hq : q = []
      · simpa [hq] using hdir
      · rcases isDir_iff.mp hdir with hroot | hdir
        · exact absurd (List.append_eq_nil_iff.mp hroot).2 hq
        · exact ih hdir hq

theorem IsTree.get?_append (hfree : disk.get? p = none) (hne : p ≠ []) (rel : DiskPath) :
    disk.get? (p ++ rel) = none := by
  by_cases hrel : rel = []
  · rw [hrel, List.append_nil, hfree]
  · rw [Option.eq_none_iff_forall_ne_some]
    intro entry hentry
    rcases isDir_iff.mp (htree.isDir_of_append hentry hrel) with hroot | hdir
    · exact hne hroot
    · rw [hfree] at hdir
      cases hdir

theorem IsTree.mem_names (hentry : disk.get? (p ++ name :: q) = some entry) :
    name ∈ disk.names p := by
  apply Disk.mem_names.mpr
  by_cases hq : q = []
  · simp [← hq, hentry]
  · have hdir : disk.isDir (p ++ [name]) = true := by
      rw [← List.singleton_append, ← List.append_assoc] at hentry
      exact htree.isDir_of_append hentry hq
    rcases isDir_iff.mp hdir with hroot | hdir
    · simp at hroot
    · simp [hdir]

end

theorem foldlM_mkdir (paths : List DiskPath)
    (hfree : ∀ q ∈ paths, disk.get? q = none ∨ disk.get? q = some .dir) :
    ∃ made, paths.foldlM mkdir disk = some made ∧
      ∀ r, made.get? r = if r ∈ paths then some .dir else disk.get? r := by
  induction paths generalizing disk with
  | nil => exact ⟨disk, rfl, fun r => by simp⟩
  | cons q paths ih =>
      obtain ⟨next, hnext, hget⟩ : ∃ next, disk.mkdir q = some next ∧
          ∀ r, next.get? r = if r = q then some .dir else disk.get? r := by
        rcases hfree q List.mem_cons_self with hnone | hdir
        · refine ⟨disk.set q .dir, by simp [mkdir, hnone], fun r => ?_⟩
          simp [Dict.get?_set, eq_comm]
        · refine ⟨disk, by simp [mkdir, hdir], fun r => ?_⟩
          split
          · rename_i heq
            rw [heq, hdir]
          · rfl
      have hrest : ∀ r ∈ paths, next.get? r = none ∨ next.get? r = some .dir := by
        intro r hr
        rw [hget]
        split
        · exact Or.inr rfl
        · exact hfree r (List.mem_cons_of_mem _ hr)
      obtain ⟨made, hmade, hmget⟩ := ih hrest
      refine ⟨made, by rw [List.foldlM_cons, hnext]; exact hmade, fun r => ?_⟩
      rw [hmget, hget]
      by_cases hr : r ∈ paths <;> simp [hr]

theorem free_of_foldlM_mkdir {paths : List DiskPath} (hmade : paths.foldlM mkdir disk = some made) :
    ∀ q ∈ paths, disk.get? q = none ∨ disk.get? q = some .dir := by
  induction paths generalizing disk with
  | nil => simp
  | cons q paths ih =>
      rw [List.foldlM_cons] at hmade
      obtain ⟨next, hnext, hrest⟩ := Option.bind_eq_some_iff.mp hmade
      have hq : (disk.get? q = none ∧ next = disk.set q .dir) ∨
          (disk.get? q = some .dir ∧ next = disk) := by
        unfold mkdir at hnext
        split at hnext
        · rename_i hnone
          exact Or.inl ⟨hnone, (Option.some.inj hnext).symm⟩
        · rename_i hdir
          exact Or.inr ⟨hdir, (Option.some.inj hnext).symm⟩
        · cases hnext
      intro r hr
      rcases List.mem_cons.mp hr with rfl | hr
      · exact hq.imp And.left And.left
      · rcases hq with ⟨hnone, rfl⟩ | ⟨-, rfl⟩
        · rcases ih hrest r hr with hfree | hfree
          · rw [Dict.get?_set] at hfree
            split at hfree
            · cases hfree
            · exact Or.inl hfree
          · rw [Dict.get?_set] at hfree
            split at hfree
            · rename_i heq
              exact Or.inl (heq ▸ hnone)
            · exact Or.inr hfree
        · exact ih hrest r hr

theorem mem_inits_tail : r ∈ p.inits.tail ↔ r ≠ [] ∧ (below r p).isSome := by
  rw [Option.isSome_iff_exists]
  simp only [below_eq_some]
  cases p with
  | nil => simp
  | cons a p =>
      have hinits : r ∈ (a :: p).inits ↔ ∃ rel, a :: p = r ++ rel := by
        rw [List.mem_inits]
        exact ⟨fun ⟨rel, hrel⟩ => ⟨rel, hrel.symm⟩, fun ⟨rel, hrel⟩ => ⟨rel, hrel.symm⟩⟩
      rw [← hinits, List.inits_cons, List.tail_cons, List.mem_cons]
      constructor
      · intro hmem
        refine ⟨?_, Or.inr hmem⟩
        rintro rfl
        simp at hmem
      · rintro ⟨hne, rfl | hmem⟩
        · exact absurd rfl hne
        · exact hmem

theorem get?_mkdirs (hmade : disk.mkdirs p = some made) (r : DiskPath) :
    made.get? r = if r ≠ [] ∧ (below r p).isSome then some .dir else disk.get? r := by
  obtain ⟨other, hother, hget⟩ := foldlM_mkdir _ (free_of_foldlM_mkdir hmade)
  obtain rfl := Option.some.inj (hother.symm.trans hmade)
  rw [hget]
  exact if_congr mem_inits_tail rfl rfl

theorem mkdirs_of_dirs (hdirs : ∀ r, r ≠ [] → (below r p).isSome → disk.get? r = some .dir) :
    disk.mkdirs p = some disk := by
  have hall : ∀ r ∈ p.inits.tail, disk.get? r = some .dir := by
    intro r hr
    exact hdirs r (mem_inits_tail.mp hr).1 (mem_inits_tail.mp hr).2
  unfold mkdirs
  generalize p.inits.tail = paths at hall
  induction paths with
  | nil => rfl
  | cons r paths ih =>
      rw [List.foldlM_cons, mkdir, hall r List.mem_cons_self]
      exact ih fun q hq => hall q (List.mem_cons_of_mem _ hq)

theorem mkdirs_concat (hdirs : ∀ r, r ≠ [] → (below r q).isSome → disk.get? r = some .dir)
    (hfree : disk.get? (q ++ [name]) = none ∨ disk.get? (q ++ [name]) = some .dir) :
    ∃ made, disk.mkdirs (q ++ [name]) = some made ∧
      ∀ r, made.get? r = if r = q ++ [name] then some .dir else disk.get? r := by
  obtain ⟨made, hmade, -⟩ := @foldlM_mkdir disk (q ++ [name]).inits.tail (by
    intro r hr
    obtain ⟨hne, hbelow⟩ := mem_inits_tail.mp hr
    rcases isSome_below_concat.mp hbelow with rfl | hbelow
    · exact hfree
    · exact Or.inr (hdirs r hne hbelow))
  refine ⟨made, hmade, fun r => ?_⟩
  rw [get?_mkdirs hmade]
  by_cases hr : r = q ++ [name]
  · simp [hr]
  · rw [if_neg hr]
    split
    · rename_i habove
      exact (hdirs r habove.1 ((isSome_below_concat.mp habove.2).resolve_left hr)).symm
    · rfl

theorem isTree_iff : disk.IsTree ↔
    ∀ r entry, disk.get? r = some entry → r ≠ [] ∧ disk.isDir r.dropLast = true := by
  constructor
  · intro htree r entry hentry
    exact htree _ (Dict.get?_eq_some_iff.mp hentry)
  · intro htree entry hmem
    exact htree entry.1 entry.2 (Dict.get?_eq_some_iff.mpr hmem)

theorem IsTree.mkdirs (htree : disk.IsTree) (hmade : disk.mkdirs p = some made) : made.IsTree := by
  have hget := get?_mkdirs hmade
  have hkeeps : ∀ r, disk.isDir r = true → made.isDir r = true := by
    intro r hdir
    rw [isDir_iff] at hdir ⊢
    refine hdir.imp_right fun hdir => ?_
    rw [hget]
    split
    · rfl
    · exact hdir
  apply isTree_iff.mpr
  intro r entry hentry
  rw [hget] at hentry
  split at hentry
  · rename_i habove
    refine ⟨habove.1, isDir_iff.mpr ?_⟩
    by_cases hroot : r.dropLast = []
    · exact Or.inl hroot
    · obtain ⟨rel, hrel⟩ := Option.isSome_iff_exists.mp habove.2
      right
      rw [hget, if_pos]
      refine ⟨hroot, Option.isSome_iff_exists.mpr ⟨r.getLast habove.1 :: rel, ?_⟩⟩
      rw [below_eq_some, ← List.singleton_append, ← List.append_assoc, List.dropLast_append_getLast,
        ← below_eq_some]
      exact hrel
  · exact ⟨(isTree_iff.mp htree r entry hentry).1,
      hkeeps _ (isTree_iff.mp htree r entry hentry).2⟩

theorem IsTree.removeAll (htree : disk.IsTree) : (disk.removeAll p).IsTree := by
  apply isTree_iff.mpr
  intro r entry hentry
  rw [get?_removeAll] at hentry
  split at hentry
  · cases hentry
  · rename_i hout
    obtain ⟨hne, hparent⟩ := isTree_iff.mp htree r entry hentry
    refine ⟨hne, isDir_iff.mpr ((isDir_iff.mp hparent).imp_right fun hdir => ?_)⟩
    rw [get?_removeAll, if_neg, hdir]
    intro habove
    apply hout
    rw [← List.dropLast_append_getLast hne]
    exact isSome_below_concat.mpr (Or.inr habove)

def SameKind (a b : Entry) : Prop := a = .dir ↔ b = .dir

theorem foldlM_copyEntry {tree : List (DiskPath × Entry)} (hnodup : (tree.map Prod.fst).Nodup)
    (hkinds : ∀ rel new old, (rel, new) ∈ tree → disk.get? (q ++ rel) = some old →
      SameKind old new) :
    tree.foldlM (fun disk entry => copyEntry disk (q ++ entry.1) entry.2) disk =
      some (putAll disk q tree) := by
  induction tree generalizing disk with
  | nil => rfl
  | cons entry tree ih =>
      rw [List.map_cons, List.nodup_cons] at hnodup
      have hcopy : copyEntry disk (q ++ entry.1) entry.2 =
          some (disk.set (q ++ entry.1) entry.2) := by
        unfold copyEntry
        split
        · rfl
        · rename_i old hold
          exact if_pos (hkinds entry.1 entry.2 old List.mem_cons_self hold)
      rw [List.foldlM_cons, hcopy]
      apply ih hnodup.2
      intro rel new old hmem hold
      apply hkinds rel new old (List.mem_cons_of_mem _ hmem)
      have hne : q ++ entry.1 ≠ q ++ rel := by
        intro heq
        apply hnodup.1
        rw [List.append_cancel_left heq]
        exact List.mem_map_of_mem (f := Prod.fst) hmem
      rwa [Dict.get?_set_of_ne _ _ hne] at hold

theorem getEntries_filter_subtree (keep : Entry → Bool) (rel : DiskPath) :
    Dict.getEntries rel ((disk.subtree p).filter fun entry => keep entry.2) =
      (disk.get? (p ++ rel)).filter keep := by
  ext entry
  have hnodup : (((disk.subtree p).filter fun entry => keep entry.2).map Prod.fst).Nodup :=
    (List.filter_sublist.map _).nodup (nodup_subtree disk p)
  rw [Dict.getEntries_eq_some_iff hnodup, List.mem_filter, mem_subtree, Option.filter_eq_some_iff]

theorem cp_eq_some {keep : Entry → Bool} (hout : below p q = none)
    (hdirs : ∀ r, r ≠ [] → (below r q.dropLast).isSome → disk.get? r = some .dir)
    (hkinds : ∀ rel new old, disk.get? (p ++ rel) = some new → keep new = true →
      disk.get? (q ++ rel) = some old → SameKind old new) :
    ∃ copied, disk.cp keep p q = some copied ∧ ∀ r, copied.get? r =
      ((below q r).bind fun rel => (disk.get? (p ++ rel)).filter keep).or (disk.get? r) := by
  have hnodup : (((disk.subtree p).filter fun entry => keep entry.2).map Prod.fst).Nodup :=
    (List.filter_sublist.map _).nodup (nodup_subtree disk p)
  refine ⟨putAll disk q ((disk.subtree p).filter fun entry => keep entry.2), ?_, fun r => ?_⟩
  · rw [cp, hout, mkdirs_of_dirs hdirs]
    apply foldlM_copyEntry hnodup
    intro rel new old hmem hold
    rw [List.mem_filter] at hmem
    exact hkinds rel new old (mem_subtree.mp hmem.1) hmem.2 hold
  · rw [get?_putAll hnodup]
    simp only [getEntries_filter_subtree]

/-- Each path has what it had at the start or what it is to have in the end. -/
def Between (start goal : DiskPath → Option Entry) (disk : Disk) : Prop :=
  ∀ r, disk.get? r = start r ∨ disk.get? r = goal r

/-- The step leaves a part of the disk as it is to be, and everything else as it is. -/
def Settles (goal : DiskPath → Option Entry) (part : DiskPath → Prop) (before after : Disk) :
    Prop :=
  ∀ r, (part r → after.get? r = goal r) ∧ (¬ part r → after.get? r = before.get? r)

variable {start goal : DiskPath → Option Entry}

theorem Settles.between (hsettles : Settles goal part disk after)
    (hbetween : Between start goal disk) : Between start goal after := by
  intro r
  by_cases hpart : part r
  · exact Or.inr ((hsettles r).1 hpart)
  · rw [(hsettles r).2 hpart]
    exact hbetween r

theorem Settles.trans {middle : Disk} (hfirst : Settles goal part disk middle)
    (hrest : Settles goal part' middle after) :
    Settles goal (fun r => part r ∨ part' r) disk after := by
  intro r
  by_cases hlater : part' r
  · exact ⟨fun _ => (hrest r).1 hlater, fun hnone => absurd (Or.inr hlater) hnone⟩
  · rw [(hrest r).2 hlater]
    simpa [hlater] using hfirst r

theorem Settles.congr (hsettles : Settles goal part disk after) (hparts : ∀ r, part r ↔ part' r) :
    Settles goal part' disk after := by
  intro r
  rw [← hparts]
  exact hsettles r

theorem Between.refl (goal : DiskPath → Option Entry) (disk : Disk) : Between disk.get? goal disk :=
  fun _ => Or.inl rfl

theorem Between.trans (hbefore : Between start goal disk) (hafter : Between disk.get? goal after) :
    Between start goal after := by
  intro r
  rcases hafter r with heq | heq
  · rw [heq]
    exact hbefore r
  · exact Or.inr heq

theorem Between.eq_of_eq (hafter : Between disk.get? goal after) (heq : disk.get? r = goal r) :
    after.get? r = goal r :=
  (hafter r).elim (fun h => h.trans heq) id

variable {α : Type} {xs : List α} {step : Disk → α → Option Disk}

variable (part : α → DiskPath → Prop)

/-- What one step settles stays settled, so that a loop settles all the parts.  The steps may rely
on what every one of them keeps. -/
theorem foldlM_settles_of (inv : Disk → Prop)
    (hstep : ∀ x ∈ xs, ∀ disk, inv disk → ∃ after, step disk x = some after ∧ inv after ∧ Settles
      goal (part x) disk after) (hinv : inv disk) :
    ∃ after, xs.foldlM step disk = some after ∧ inv after ∧
      Settles goal (fun r => ∃ x ∈ xs, part x r) disk after := by
  induction xs generalizing disk with
  | nil => exact ⟨disk, rfl, hinv, fun r => by simp⟩
  | cons x xs ih =>
      obtain ⟨next, hnext, hnextinv, hfirst⟩ := hstep x List.mem_cons_self disk hinv
      obtain ⟨after, hafter, hafterinv, hrest⟩ := ih
        (fun y hy => hstep y (List.mem_cons_of_mem _ hy)) hnextinv
      refine ⟨after, by rw [List.foldlM_cons, hnext]; exact hafter, hafterinv, ?_⟩
      apply (hfirst.trans hrest).congr
      intro r
      simp

theorem foldlM_settles
    (hstep : ∀ x ∈ xs, ∀ disk, Between start goal disk → ∃ after, step disk x = some after ∧
      Settles goal (part x) disk after) (hbetween : Between start goal disk) :
    ∃ after, xs.foldlM step disk = some after ∧
      Settles goal (fun r => ∃ x ∈ xs, part x r) disk after := by
  obtain ⟨after, hafter, -, hsettles⟩ := foldlM_settles_of part (Between start goal)
    (fun x hx disk hdisk => by
      obtain ⟨after, hafter, hsettles⟩ := hstep x hx disk hdisk
      exact ⟨after, hafter, hsettles.between hdisk, hsettles⟩) hbetween
  exact ⟨after, hafter, hsettles⟩

theorem foldl_settles_of {step : Disk → α → Disk} (inv : Disk → Prop)
    (hstep : ∀ x ∈ xs, ∀ disk, inv disk → inv (step disk x) ∧ Settles goal (part x) disk (step
      disk x)) (hinv : inv disk) : inv (xs.foldl step disk) ∧
      Settles goal (fun r => ∃ x ∈ xs, part x r) disk (xs.foldl step disk) := by
  obtain ⟨after, hafter, hsettles⟩ := foldlM_settles_of part inv
    (fun x hx disk hdisk => ⟨step disk x, rfl, hstep x hx disk hdisk⟩) hinv
  have hfold : xs.foldlM (fun disk x => some (step disk x)) disk = some (xs.foldl step disk) :=
    List.foldlM_pure
  obtain rfl := Option.some.inj (hfold.symm.trans hafter)
  exact hsettles

end Disk
