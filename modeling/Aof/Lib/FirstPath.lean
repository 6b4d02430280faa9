import Mathlib.Data.List.Infix
import Mathlib.Data.List.Nodup
import Mathlib.Logic.Relation

/-!
# First paths of a depth-first search

A depth-first search over ordered choices comes to an element along the first path to it: the paths
start at the roots, repeat nothing, and are compared at the choice where they part.  So what the
search has seen at some point, and the cycles that it closes on its stack, can be said in terms of
paths alone.
-/

namespace FirstPath

variable {α : Type} {roots : List α} {next : α → List α}
variable {path tried stem p q : List α} {a b v w y : α}

def choices (roots : List α) (next : α → List α) (path : List α) : List α :=
  match path.getLast? with
  | none => roots
  | some a => next a

theorem choices_concat (path : List α) (a : α) : choices roots next (path ++ [a]) = next a := by
  unfold choices
  rw [List.getLast?_concat]

inductive IsPath (roots : List α) (next : α → List α) : List α → Prop
  | nil : IsPath roots next []
  | concat {path : List α} {a : α} (hpath : IsPath roots next path)
      (hchoice : a ∈ choices roots next path) (hfresh : a ∉ path) : IsPath roots next (path ++ [a])

namespace IsPath

theorem of_concat (hpath : IsPath roots next (path ++ [a])) :
    IsPath roots next path ∧ a ∈ choices roots next path ∧ a ∉ path := by
  generalize hwhole : path ++ [a] = whole at hpath
  cases hpath with
  | nil => simp at hwhole
  | concat hshort hchoice hfresh =>
      obtain ⟨rfl, hlast⟩ := List.append_inj' hwhole rfl
      obtain rfl := List.singleton_inj.mp hlast
      exact ⟨hshort, hchoice, hfresh⟩

variable (hpath : IsPath roots next p)
include hpath

theorem initial (hbegins : q <+: p) : IsPath roots next q := by
  induction hpath with
  | nil =>
      rw [List.prefix_nil.mp hbegins]
      exact .nil
  | concat hshort hchoice hfresh ih =>
      cases List.prefix_concat_iff.mp hbegins with
      | inl hwhole =>
          rw [hwhole]
          exact .concat hshort hchoice hfresh
      | inr hpart => exact ih hpart

theorem nodup : p.Nodup := by
  induction hpath with
  | nil => exact List.nodup_nil
  | concat _ _ hfresh ih =>
      rw [← List.concat_eq_append]
      exact ih.concat hfresh

theorem extend (hstem : stem ++ [a] <+: p) (hlast : p.getLast? = some b) (hnext : v ∈ next b)
    (hfresh : v ∉ stem) : ∃ q, IsPath roots next q ∧ stem ++ [a] <+: q ∧ q.getLast? = some v := by
  by_cases hmem : v ∈ p
  · obtain ⟨before, after, rfl⟩ := List.append_of_mem hmem
    have hcut : before ++ [v] <+: before ++ v :: after := ⟨after, by simp⟩
    refine ⟨before ++ [v], hpath.initial hcut, ?_, List.getLast?_concat⟩
    apply List.prefix_of_prefix_length_le hstem hcut
    by_contra hshort
    have hlength : (before ++ [v]).length ≤ stem.length := by
      simp only [List.length_append, List.length_singleton] at hshort ⊢
      omega
    have hinside : before ++ [v] <+: stem :=
      List.prefix_of_prefix_length_le hcut ((List.prefix_append stem [a]).trans hstem) hlength
    exact hfresh (hinside.subset (by simp))
  · have hchoice : v ∈ choices roots next p := by
      unfold choices
      rw [hlast]
      exact hnext
    exact ⟨p ++ [v], hpath.concat hchoice hmem, hstem.trans (List.prefix_append p [v]),
      List.getLast?_concat⟩

theorem reroute (hstem : stem ++ [a] <+: p) (hlast : p.getLast? = some b) {rest : List α}
    (hother : IsPath roots next (path ++ b :: rest)) (hsubset : stem ⊆ path) :
    ∃ q, IsPath roots next q ∧ stem ++ [a] <+: q ∧ q.getLast? = (path ++ b :: rest).getLast? := by
  induction rest using List.reverseRecOn with
  | nil => exact ⟨p, hpath, hstem, by rw [hlast, List.getLast?_concat]⟩
  | append_singleton rest v ih =>
      have hsplit : path ++ b :: (rest ++ [v]) = (path ++ b :: rest) ++ [v] := by simp
      rw [hsplit] at hother ⊢
      obtain ⟨hshort, hchoice, hfresh⟩ := hother.of_concat
      obtain ⟨q, hq, hqstem, hqlast⟩ := ih hshort
      obtain ⟨c, hc⟩ : ∃ c, (path ++ b :: rest).getLast? = some c := by
        apply Option.isSome_iff_exists.mp
        simp [List.getLast?_isSome]
      unfold choices at hchoice
      rw [hc] at hchoice hqlast
      have hvstem : v ∉ stem := fun hv => hfresh (List.mem_append_left _ (hsubset hv))
      rw [List.getLast?_concat]
      exact hq.extend hqstem hqlast hchoice hvstem

end IsPath

variable [DecidableEq α]

/-- The stem is left for an element that comes before the next one of the path, or the path is
whole and goes on with one of the elements already tried. -/
def TurnsOff (roots : List α) (next : α → List α) (path tried stem : List α) (a : α) : Prop :=
  (∃ b rest, path = stem ++ b :: rest ∧ a ∈ (choices roots next stem).takeWhile (· ≠ b)) ∨
    stem = path ∧ a ∈ tried

/-- What a search has seen when the path is its stack and some choices at its end are done. -/
def Explored (roots : List α) (next : α → List α) (path tried : List α) (y : α) : Prop :=
  y ∈ path ∨ ∃ stem a q, TurnsOff roots next path tried stem a ∧ IsPath roots next q ∧
    stem ++ [a] <+: q ∧ q.getLast? = some y

/-- No path that leaves this one for an earlier choice has the same end. -/
def IsFirst (roots : List α) (next : α → List α) (path : List α) : Prop :=
  IsPath roots next path ∧ ∀ stem a q, TurnsOff roots next path [] stem a → IsPath roots next q →
    stem ++ [a] <+: q → q.getLast? ≠ path.getLast?

/-- The last element of a first path leads back to an element of the path, and the other element
lies on the cycle that this closes. -/
def Closes (roots : List α) (next : α → List α) (path : List α) (w v : α) : Prop :=
  IsFirst roots next path ∧ w ∈ choices roots next path ∧ w ∈ path ∧
    v ∈ path.dropWhile (· ≠ w)

/-- The cycles closed beyond the path through one of the elements tried at its end. -/
def Reported (roots : List α) (next : α → List α) (path tried : List α) (v : α) : Prop :=
  ∃ a ∈ tried, ∃ q w, path ++ [a] <+: q ++ [w] ∧ Closes roots next q w v

theorem TurnsOff.subset (hturns : TurnsOff roots next path tried stem a) : stem ⊆ path := by
  cases hturns with
  | inl hearlier =>
      obtain ⟨b, rest, rfl, -⟩ := hearlier
      exact List.subset_append_left stem _
  | inr hwhole => exact hwhole.1 ▸ List.Subset.refl path

theorem turnsOff_concat (htried : (choices roots next path).takeWhile (· ≠ v) = tried) :
    TurnsOff roots next (path ++ [v]) [] stem a ↔ TurnsOff roots next path tried stem a := by
  constructor
  · intro hturns
    obtain ⟨b, rest, hsplit, hbefore⟩ := hturns.resolve_right fun hwhole => by simp at hwhole
    rcases List.eq_nil_or_concat rest with rfl | ⟨rest, c, rfl⟩
    · obtain ⟨rfl, hlast⟩ := List.append_inj' hsplit rfl
      obtain rfl := List.singleton_inj.mp hlast
      exact .inr ⟨rfl, htried ▸ hbefore⟩
    · refine .inl ⟨b, rest, ?_, hbefore⟩
      have hwhole : path ++ [v] = (stem ++ b :: rest) ++ [c] := by
        rw [hsplit, List.concat_eq_append, List.append_assoc, List.cons_append]
      exact (List.append_inj' hwhole rfl).1
  · intro hturns
    cases hturns with
    | inl hearlier =>
        obtain ⟨b, rest, rfl, hbefore⟩ := hearlier
        exact .inl ⟨b, rest ++ [v], by simp, hbefore⟩
    | inr hwhole =>
        obtain ⟨rfl, ha⟩ := hwhole
        exact .inl ⟨v, [], rfl, htried ▸ ha⟩

variable {more rest : List α}

theorem turnsOff_mono (hmore : tried ⊆ more) (hturns : TurnsOff roots next path tried stem a) :
    TurnsOff roots next path more stem a :=
  hturns.imp_right fun hwhole => ⟨hwhole.1, hmore hwhole.2⟩

theorem explored_mono (hmore : tried ⊆ more) (hexplored : Explored roots next path tried y) :
    Explored roots next path more y := by
  cases hexplored with
  | inl hmem => exact .inl hmem
  | inr hbeyond =>
      obtain ⟨stem, a, q, hturns, hrest⟩ := hbeyond
      exact .inr ⟨stem, a, q, turnsOff_mono hmore hturns, hrest⟩

theorem explored_concat (htried : (choices roots next path).takeWhile (· ≠ v) = tried) :
    Explored roots next (path ++ [v]) [] y ↔ Explored roots next path tried y ∨ y = v := by
  unfold Explored
  simp only [turnsOff_concat htried, List.mem_append, List.mem_singleton]
  exact or_right_comm

theorem explored_beyond (hseen : Explored roots next path tried v) (hfresh : v ∉ path)
    (hq : IsPath roots next (path ++ v :: rest)) (hlast : (path ++ v :: rest).getLast? = some y) :
    ∃ stem a q, TurnsOff roots next path tried stem a ∧ IsPath roots next q ∧
      stem ++ [a] <+: q ∧ q.getLast? = some y := by
  obtain ⟨stem, a, p, hturns, hp, hstem, hplast⟩ := hseen.resolve_left hfresh
  obtain ⟨q, hpath, hbegins, hend⟩ := hp.reroute hstem hplast hq hturns.subset
  exact ⟨stem, a, q, hturns, hpath, hbegins, hend.trans hlast⟩

omit [DecidableEq α] in
theorem prefix_concat_iff_exists : path ++ [v] <+: q ↔ ∃ rest, q = path ++ v :: rest := by
  constructor
  · intro hbegins
    obtain ⟨rest, rfl⟩ := hbegins
    exact ⟨rest, by simp⟩
  · intro hexists
    obtain ⟨rest, rfl⟩ := hexists
    exact ⟨rest, by simp⟩

theorem explored_seen (hseen : Explored roots next path tried v) :
    Explored roots next path (tried ++ [v]) y ↔ Explored roots next path tried y := by
  constructor
  · intro hexplored
    cases hexplored with
    | inl hmem => exact .inl hmem
    | inr hbeyond =>
        obtain ⟨stem, a, q, hturns, hq, hbegins, hlast⟩ := hbeyond
        by_cases hwhole : stem = path ∧ a = v
        · obtain ⟨rfl, rfl⟩ := hwhole
          obtain ⟨rest, rfl⟩ := prefix_concat_iff_exists.mp hbegins
          have hcut : stem ++ [a] <+: stem ++ a :: rest := prefix_concat_iff_exists.mpr ⟨rest, rfl⟩
          have hfresh : a ∉ stem := (hq.initial hcut).of_concat.2.2
          exact .inr (explored_beyond hseen hfresh hq hlast)
        · refine .inr ⟨stem, a, q, ?_, hq, hbegins, hlast⟩
          apply hturns.imp_right
          intro hend
          have htried := List.mem_append.mp hend.2
          exact ⟨hend.1, htried.resolve_right fun hv =>
            hwhole ⟨hend.1, List.mem_singleton.mp hv⟩⟩
  · exact explored_mono (List.subset_append_left tried [v])

theorem explored_done (hpath : IsPath roots next (path ++ [v]))
    (htried : (choices roots next path).takeWhile (· ≠ v) = tried) :
    Explored roots next (path ++ [v]) (next v) y ↔ Explored roots next path (tried ++ [v]) y := by
  constructor
  · intro hexplored
    cases hexplored with
    | inl hmem =>
        cases List.mem_append.mp hmem with
        | inl hold => exact .inl hold
        | inr hnew =>
            rw [List.mem_singleton.mp hnew]
            exact .inr ⟨path, v, path ++ [v], .inr ⟨rfl, by simp⟩, hpath, List.prefix_rfl,
              List.getLast?_concat⟩
    | inr hbeyond =>
        obtain ⟨stem, a, q, hturns, hq, hbegins, hlast⟩ := hbeyond
        cases hturns with
        | inl hearlier =>
            have hshort : TurnsOff roots next path tried stem a :=
              (turnsOff_concat htried).mp (.inl hearlier)
            exact .inr ⟨stem, a, q, turnsOff_mono (List.subset_append_left tried [v]) hshort, hq,
              hbegins, hlast⟩
        | inr hwhole =>
            obtain ⟨rfl, -⟩ := hwhole
            exact .inr ⟨path, v, q, .inr ⟨rfl, by simp⟩, hq,
              (List.prefix_append _ [a]).trans hbegins, hlast⟩
  · intro hexplored
    cases hexplored with
    | inl hmem => exact .inl (List.mem_append_left _ hmem)
    | inr hbeyond =>
        obtain ⟨stem, a, q, hturns, hq, hbegins, hlast⟩ := hbeyond
        by_cases hwhole : stem = path ∧ a = v
        · obtain ⟨rfl, rfl⟩ := hwhole
          obtain ⟨rest, rfl⟩ := prefix_concat_iff_exists.mp hbegins
          cases rest with
          | nil =>
              rw [List.getLast?_concat] at hlast
              rw [← Option.some.inj hlast]
              exact .inl (by simp)
          | cons b rest =>
              have hcut : (stem ++ [a]) ++ [b] <+: stem ++ a :: b :: rest := ⟨rest, by simp⟩
              have hchoice := (hq.initial hcut).of_concat.2.1
              rw [choices_concat] at hchoice
              exact .inr ⟨stem ++ [a], b, _, .inr ⟨rfl, hchoice⟩, hq, hcut, hlast⟩
        · have hshort : TurnsOff roots next path tried stem a := by
            apply hturns.imp_right
            intro hend
            have hmem := List.mem_append.mp hend.2
            exact ⟨hend.1, hmem.resolve_right fun hv => hwhole ⟨hend.1, List.mem_singleton.mp hv⟩⟩
          have hlong := (turnsOff_concat htried).mpr hshort
          refine .inr ⟨stem, a, q, turnsOff_mono (List.nil_subset _) hlong, hq, hbegins, hlast⟩

theorem reported_append : Reported roots next path (tried ++ more) v ↔
      Reported roots next path tried v ∨ Reported roots next path more v := by
  unfold Reported
  simp only [List.mem_append, or_and_right, exists_or]

theorem reported_of_mem (hfirst : IsFirst roots next path) (hchoice : a ∈ choices roots next path)
    (hmem : a ∈ path) : Reported roots next path [a] v ↔ v ∈ path.dropWhile (· ≠ a) := by
  constructor
  · intro hreported
    obtain ⟨b, hb, q, w, hbegins, hcloses⟩ := hreported
    rw [List.mem_singleton.mp hb] at hbegins
    cases List.prefix_concat_iff.mp hbegins with
    | inl hwhole =>
        obtain ⟨rfl, hlast⟩ := List.append_inj' hwhole rfl
        obtain rfl := List.singleton_inj.mp hlast
        exact hcloses.2.2.2
    | inr hpart => exact absurd hmem (hcloses.1.1.initial hpart).of_concat.2.2
  · intro hlies
    exact ⟨a, List.mem_singleton_self a, path, a, List.prefix_rfl, hfirst, hchoice, hmem, hlies⟩

theorem not_reported_of_seen (htried : (choices roots next path).takeWhile (· ≠ a) = tried)
    (hseen : Explored roots next path tried a) (hfresh : a ∉ path) :
    ¬Reported roots next path [a] v := by
  intro hreported
  obtain ⟨b, hb, q, w, hbegins, hcloses⟩ := hreported
  rw [List.mem_singleton.mp hb] at hbegins
  cases List.prefix_concat_iff.mp hbegins with
  | inl hwhole =>
      obtain ⟨rfl, hlast⟩ := List.append_inj' hwhole rfl
      obtain rfl := List.singleton_inj.mp hlast
      exact hfresh hcloses.2.2.1
  | inr hpart =>
      obtain ⟨rest, rfl⟩ := prefix_concat_iff_exists.mp hpart
      obtain ⟨y, hy⟩ : ∃ y, (path ++ a :: rest).getLast? = some y := by
        apply Option.isSome_iff_exists.mp
        simp [List.getLast?_isSome]
      obtain ⟨stem, c, p, hturns, hp, hstem, hplast⟩ :=
        explored_beyond hseen hfresh hcloses.1.1 hy
      have hlong : TurnsOff roots next (path ++ a :: rest) [] stem c := by
        cases (turnsOff_concat htried).mpr hturns with
        | inl hearlier =>
            obtain ⟨d, after, hsplit, hbefore⟩ := hearlier
            refine .inl ⟨d, after ++ rest, ?_, hbefore⟩
            have hassoc : path ++ a :: rest = (path ++ [a]) ++ rest := by simp
            rw [hassoc, hsplit, List.append_assoc, List.cons_append]
        | inr hwhole => simp at hwhole
      exact hcloses.1.2 stem c p hlong hp hstem (hplast.trans hy.symm)

theorem isFirst_concat (hpath : IsPath roots next path) (hchoice : a ∈ choices roots next path)
    (htried : (choices roots next path).takeWhile (· ≠ a) = tried)
    (hnew : ¬Explored roots next path tried a) : IsFirst roots next (path ++ [a]) := by
  refine ⟨hpath.concat hchoice fun hmem => hnew (.inl hmem), ?_⟩
  intro stem c q hturns hq hbegins hlast
  rw [List.getLast?_concat] at hlast
  exact hnew (.inr ⟨stem, c, q, (turnsOff_concat htried).mp hturns, hq, hbegins, hlast⟩)

theorem reported_concat (hfresh : a ∉ path) :
    Reported roots next path [a] v ↔ Reported roots next (path ++ [a]) (next a) v := by
  constructor
  · intro hreported
    obtain ⟨b, hb, q, w, hbegins, hcloses⟩ := hreported
    rw [List.mem_singleton.mp hb] at hbegins
    cases List.prefix_concat_iff.mp hbegins with
    | inl hwhole =>
        obtain ⟨rfl, hlast⟩ := List.append_inj' hwhole rfl
        obtain rfl := List.singleton_inj.mp hlast
        exact absurd hcloses.2.2.1 hfresh
    | inr hpart =>
        obtain ⟨rest, rfl⟩ := prefix_concat_iff_exists.mp hpart
        cases rest with
        | nil =>
            have hchoices : choices roots next (path ++ [a]) = next a := choices_concat path a
            exact ⟨w, hchoices ▸ hcloses.2.1, path ++ [a], w, List.prefix_rfl, hcloses⟩
        | cons c rest =>
            have hcut : (path ++ [a]) ++ [c] <+: path ++ a :: c :: rest := ⟨rest, by simp⟩
            have hchoice := (hcloses.1.1.initial hcut).of_concat.2.1
            rw [choices_concat] at hchoice
            exact ⟨c, hchoice, _, w, hcut.trans (List.prefix_append _ [w]), hcloses⟩
  · intro hreported
    obtain ⟨c, -, q, w, hbegins, hcloses⟩ := hreported
    exact ⟨a, List.mem_singleton_self a, q, w, (List.prefix_append _ [c]).trans hbegins, hcloses⟩

theorem reported_nil : Reported roots next [] roots v ↔ ∃ q w, Closes roots next q w v := by
  constructor
  · intro hreported
    obtain ⟨-, -, q, w, -, hcloses⟩ := hreported
    exact ⟨q, w, hcloses⟩
  · intro hexists
    obtain ⟨q, w, hcloses⟩ := hexists
    cases q with
    | nil => exact absurd hcloses.2.2.1 List.not_mem_nil
    | cons a rest =>
        have hcut : [] ++ [a] <+: a :: rest := ⟨rest, rfl⟩
        have hchoice : a ∈ roots := (hcloses.1.1.initial hcut).of_concat.2.1
        exact ⟨a, hchoice, _, w, hcut.trans (List.prefix_append _ [w]), hcloses⟩

omit [DecidableEq α] in
theorem IsPath.reaches (hpath : IsPath roots next p) {before : List α}
    (hsplit : p = before ++ a :: rest) (hb : b ∈ a :: rest) :
    Relation.ReflTransGen (fun a b => b ∈ next a) a b := by
  induction hpath generalizing rest b with
  | nil => simp at hsplit
  | @concat path c _ hchoice _ ih =>
      rcases List.eq_nil_or_concat rest with rfl | ⟨rest, d, rfl⟩
      · rw [List.mem_singleton.mp hb]
      · rw [List.concat_eq_append] at hsplit hb
        have hassoc : before ++ a :: (rest ++ [d]) = (before ++ a :: rest) ++ [d] := by simp
        rw [hassoc] at hsplit
        obtain ⟨rfl, hlast⟩ := List.append_inj' hsplit rfl
        obtain rfl := List.singleton_inj.mp hlast
        rw [← List.cons_append, List.mem_append] at hb
        cases hb with
        | inl hold => exact ih rfl hold
        | inr hnew =>
            obtain ⟨e, he⟩ : ∃ e, (a :: rest).getLast? = some e := by
              apply Option.isSome_iff_exists.mp
              simp [List.getLast?_isSome]
            have hend : (before ++ a :: rest).getLast? = some e := by
              rw [List.getLast?_append, he, Option.some_or]
            unfold choices at hchoice
            rw [hend] at hchoice
            rw [List.mem_singleton.mp hnew]
            exact (ih rfl (List.mem_of_getLast? he)).tail hchoice

theorem Closes.cyclic (hcloses : Closes roots next q w v) :
    Relation.TransGen (fun a b => b ∈ next a) v v := by
  obtain ⟨⟨hpath, -⟩, hchoice, hmem, hlies⟩ := hcloses
  obtain ⟨u, hu⟩ : ∃ u, q.getLast? = some u := by
    apply Option.isSome_iff_exists.mp
    rw [List.getLast?_isSome]
    exact List.ne_nil_of_mem hmem
  have hback : w ∈ next u := by
    unfold choices at hchoice
    rw [hu] at hchoice
    exact hchoice
  have hfrom : Relation.ReflTransGen (fun a b => b ∈ next a) w v := by
    have hsplit := List.takeWhile_append_dropWhile (p := fun c => decide (c ≠ w)) (l := q)
    cases hrest : q.dropWhile (· ≠ w) with
    | nil =>
        rw [hrest] at hlies
        cases hlies
    | cons c rest =>
        have hc : c = w := by
          have hhead := List.head?_dropWhile_not (fun c => decide (c ≠ w)) q
          rw [hrest] at hhead
          simpa using hhead
        subst hc
        rw [hrest] at hsplit hlies
        exact hpath.reaches hsplit.symm hlies
  have hto : Relation.ReflTransGen (fun a b => b ∈ next a) v u := by
    have hmemv : v ∈ q := (List.dropWhile_sublist _).subset hlies
    obtain ⟨before, rest, rfl⟩ := List.append_of_mem hmemv
    apply hpath.reaches rfl
    rw [List.getLast?_append_of_ne_nil _ (List.cons_ne_nil v rest)] at hu
    exact List.mem_of_getLast? hu
  exact (Relation.TransGen.tail' hto hback).trans_left hfrom

end FirstPath
