import Aof.Lib.LineText

/-!
# Paths as text

A path leads from the root or from the working directory some steps up and then down by names.
Normalizing a path is walking along its segments and writing down the place.
-/

namespace PosixPath

abbrev Text := List Char

def dot : Text := ['.']

def dotdot : Text := ['.', '.']

structure IsName (segment : Text) : Prop where
  nonempty : segment ≠ []
  oneSegment : '/' ∉ segment
  notDot : segment ≠ dot
  notDotdot : segment ≠ dotdot

/-- Where a path leads. -/
structure Place where
  isAbsolute : Bool
  ups : Nat
  names : List Text
  deriving DecidableEq

namespace Place

/-- The root has no parent. -/
structure Valid (place : Place) : Prop where
  names : ∀ name ∈ place.names, IsName name
  root : place.isAbsolute = true → place.ups = 0

structure Within (base place : Place) : Prop where
  sameRoot : place.isAbsolute = base.isAbsolute
  sameUps : place.ups = base.ups
  names : base.names <+: place.names

def parent (place : Place) : Place :=
  if place.names ≠ [] then { place with names := place.names.dropLast }
  else if place.isAbsolute then place
  else { place with ups := place.ups + 1 }

def step (place : Place) (segment : Text) : Place :=
  if segment = [] ∨ segment = dot then place
  else if segment = dotdot then place.parent
  else { place with names := place.names ++ [segment] }

def walk (place : Place) (segments : List Text) : Place := segments.foldl step place

def segments (place : Place) : List Text := List.replicate place.ups dotdot ++ place.names

def text (place : Place) (trailing : Bool) : Text :=
  let path := ['/'].intercalate place.segments
  if path = [] then
    if place.isAbsolute then ['/'] else if trailing then ['.', '/'] else dot
  else
    (if place.isAbsolute then ['/'] else []) ++ path ++ (if trailing then ['/'] else [])

end Place

def isAbsolute (path : Text) : Bool := path.head? = some '/'

def hasTrailingSeparator (path : Text) : Bool := path.getLast? = some '/'

def placeOf (path : Text) : Place :=
  Place.walk ⟨isAbsolute path, 0, []⟩ (path.splitOn '/')

def normalize (path : Text) : Text :=
  if path = [] then dot else (placeOf path).text (hasTrailingSeparator path)

def join (path path' : Text) : Text :=
  let joined := ['/'].intercalate ([path, path'].filter (· ≠ []))
  if joined = [] then dot else normalize joined

namespace Place

variable {place : Place}

theorem Valid.step (hplace : place.Valid) {segment : Text} (hsegment : '/' ∉ segment) :
    (place.step segment).Valid := by
  unfold Place.step parent
  split
  · exact hplace
  rename_i hskip
  rw [not_or] at hskip
  split
  · split
    · exact ⟨fun name hname => hplace.names name (List.dropLast_subset _ hname), hplace.root⟩
    split
    · exact hplace
    · rename_i hrelative
      exact ⟨hplace.names, fun habsolute => absurd habsolute hrelative⟩
  · rename_i hup
    refine ⟨fun name hname => ?_, hplace.root⟩
    rcases List.mem_append.mp hname with hold | hnew
    · exact hplace.names name hold
    · rw [List.mem_singleton.mp hnew]
      exact ⟨hskip.1, hsegment, hskip.2, hup⟩

theorem Valid.walk (hplace : place.Valid) {segments : List Text}
    (hsegments : ∀ segment ∈ segments, '/' ∉ segment) : (place.walk segments).Valid := by
  induction segments generalizing place with
  | nil => exact hplace
  | cons segment segments ih =>
      obtain ⟨hsegment, hsegments⟩ := List.forall_mem_cons.mp hsegments
      exact ih (hplace.step hsegment) hsegments

theorem step_frame (segment : Text) :
    (place.step segment).isAbsolute = place.isAbsolute ∧ place.ups ≤ (place.step segment).ups := by
  unfold step parent
  split
  · exact ⟨rfl, le_rfl⟩
  split
  · split
    · exact ⟨rfl, le_rfl⟩
    split
    · exact ⟨rfl, le_rfl⟩
    · exact ⟨rfl, Nat.le_succ _⟩
  · exact ⟨rfl, le_rfl⟩

theorem walk_frame (segments : List Text) : (place.walk segments).isAbsolute = place.isAbsolute ∧
      place.ups ≤ (place.walk segments).ups := by
  induction segments generalizing place with
  | nil => exact ⟨rfl, le_rfl⟩
  | cons segment segments ih =>
      obtain ⟨hroot, hups⟩ := @step_frame place segment
      obtain ⟨hroot', hups'⟩ := @ih (place.step segment)
      exact ⟨hroot'.trans hroot, hups.trans hups'⟩

theorem walk_append (segments segments' : List Text) :
    place.walk (segments ++ segments') = (place.walk segments).walk segments' :=
  List.foldl_append

theorem walk_names {names : List Text} (hnames : ∀ name ∈ names, IsName name) :
    place.walk names = { place with names := place.names ++ names } := by
  induction names generalizing place with
  | nil => rw [List.append_nil]; rfl
  | cons name names ih =>
      obtain ⟨hname, hnames⟩ := List.forall_mem_cons.mp hnames
      have hstep : place.step name = { place with names := place.names ++ [name] } := by
        rw [step, if_neg (not_or.mpr ⟨hname.nonempty, hname.notDot⟩), if_neg hname.notDotdot]
      rw [walk, List.foldl_cons, hstep, ← walk, ih hnames, List.append_assoc,
        List.singleton_append]

theorem walk_ups (count ups : Nat) :
    (Place.mk false ups []).walk (List.replicate count dotdot) = ⟨false, ups + count, []⟩ := by
  induction count generalizing ups with
  | zero => rfl
  | succ count ih =>
      have hstep : (Place.mk false ups []).step dotdot = ⟨false, ups + 1, []⟩ := rfl
      rw [List.replicate_succ, walk, List.foldl_cons, hstep, ← walk, ih, Nat.add_right_comm,
        Nat.add_assoc]

theorem walk_segments (hplace : place.Valid) :
    (Place.mk place.isAbsolute 0 []).walk place.segments = place := by
  obtain ⟨isAbsolute, ups, names⟩ := place
  have hups : (Place.mk isAbsolute 0 []).walk (List.replicate ups dotdot) =
      ⟨isAbsolute, ups, []⟩ := by
    cases isAbsolute with
    | false => rw [walk_ups, Nat.zero_add]
    | true =>
        have hroot : ups = 0 := hplace.root rfl
        rw [hroot]
        rfl
  rw [segments, walk_append, hups, walk_names hplace.names]
  rfl

theorem Valid.segments (hplace : place.Valid) :
    ∀ segment ∈ place.segments, segment ≠ [] ∧ '/' ∉ segment := by
  intro segment hsegment
  rcases List.mem_append.mp hsegment with hup | hname
  · rw [List.eq_of_mem_replicate hup]
    decide
  · have hname := hplace.names segment hname
    exact ⟨hname.nonempty, hname.oneSegment⟩

theorem segments_eq_nil_iff : place.segments = [] ↔ place.ups = 0 ∧ place.names = [] := by
  rw [segments, List.append_eq_nil_iff, List.replicate_eq_nil_iff]

def pieces (place : Place) (trailing : Bool) : List Text :=
  if place.segments = [] then
    if place.isAbsolute then [[], []] else dot :: if trailing then [[]] else []
  else
    (if place.isAbsolute then [[]] else []) ++ place.segments ++ if trailing then [[]] else []

theorem pieces_ne_nil (trailing : Bool) : place.pieces trailing ≠ [] := by
  unfold pieces
  split
  · split <;> simp
  · rename_i hsegments
    simp [hsegments]

variable (hplace : place.Valid)
include hplace

theorem Valid.pieces (trailing : Bool) : ∀ piece ∈ place.pieces trailing, '/' ∉ piece := by
  have hblank : ∀ condition : Prop, [Decidable condition] →
      ∀ piece ∈ if condition then [([] : Text)] else [], '/' ∉ piece := by
    intro condition _ piece hpiece
    split at hpiece
    · rw [List.mem_singleton.mp hpiece]
      exact List.not_mem_nil
    · exact absurd hpiece List.not_mem_nil
  unfold Place.pieces
  split
  · split
    · decide
    · rw [List.forall_mem_cons]
      exact ⟨by decide, hblank _⟩
  · rw [List.forall_mem_append, List.forall_mem_append]
    exact ⟨⟨hblank _, fun piece hpiece => (hplace.segments piece hpiece).2⟩, hblank _⟩

theorem intercalate_segments_eq_nil_iff :
    ['/'].intercalate place.segments = [] ↔ place.segments = [] := by
  constructor
  · intro hpath
    rcases hsegments : place.segments with _ | ⟨segment, rest⟩
    · rfl
    · have hne := (hplace.segments segment (hsegments ▸ List.mem_cons_self)).1
      rw [hsegments] at hpath
      cases rest <;> simp_all [List.intercalate]
  · intro hsegments
    rw [hsegments]
    rfl

theorem text_eq (trailing : Bool) :
    place.text trailing = ['/'].intercalate (place.pieces trailing) := by
  unfold text pieces
  simp only [intercalate_segments_eq_nil_iff hplace]
  by_cases hsegments : place.segments = []
  · rw [if_pos hsegments, if_pos hsegments]
    cases place.isAbsolute <;> cases trailing <;> rfl
  · rw [if_neg hsegments, if_neg hsegments]
    have hfront : ∀ segments : List Text, segments ≠ [] →
        ['/'].intercalate ((if place.isAbsolute then [[]] else []) ++ segments) =
          (if place.isAbsolute then ['/'] else []) ++ ['/'].intercalate segments := by
      intro segments hne
      cases place.isAbsolute with
      | false => rfl
      | true => exact LineText.intercalate_append (List.cons_ne_nil _ _) hne
    have hback : ∀ segments : List Text, segments ≠ [] →
        ['/'].intercalate (segments ++ if trailing then [[]] else []) =
          ['/'].intercalate segments ++ if trailing then ['/'] else [] := by
      intro segments hne
      cases trailing with
      | false =>
          simp only [Bool.false_eq_true, if_false, List.append_nil]
      | true => exact LineText.intercalate_append hne (List.cons_ne_nil _ _)
    rw [hback _ (by simp [hsegments]), hfront _ hsegments]

theorem walk_pieces (trailing : Bool) :
    (Place.mk place.isAbsolute 0 []).walk (place.pieces trailing) = place := by
  have hblank : ∀ (condition : Bool) (place : Place),
      place.walk (if condition then [[]] else []) = place := by
    intro condition place
    cases condition <;> rfl
  unfold pieces
  by_cases hsegments : place.segments = []
  · have hroot : Place.mk place.isAbsolute 0 [] = place := by
      obtain ⟨hups, hnames⟩ := segments_eq_nil_iff.mp hsegments
      rw [← hups, ← hnames]
    rw [if_pos hsegments, hroot]
    cases place.isAbsolute <;> cases trailing <;> rfl
  · rw [if_neg hsegments, walk_append, walk_append, hblank, hblank, walk_segments hplace]

end Place

section

variable {place : Place} (hplace : place.Valid)

theorem valid_placeOf (path : Text) : (placeOf path).Valid := by
  have hstart : (Place.mk (isAbsolute path) 0 []).Valid :=
    ⟨List.forall_mem_nil _, fun _ => rfl⟩
  exact hstart.walk fun segment hsegment => LineText.not_mem_of_mem_splitOn hsegment

theorem normalize_eq (path : Text) :
    normalize path = (placeOf path).text (hasTrailingSeparator path) := by
  unfold normalize
  split
  · rename_i hnil
    rw [hnil]
    rfl
  · rfl

include hplace

theorem isAbsolute_text (trailing : Bool) :
    isAbsolute (place.text trailing) = place.isAbsolute := by
  unfold Place.text
  by_cases hsegments : place.segments = []
  · rw [hsegments]
    cases place.isAbsolute <;> cases trailing <;> rfl
  · dsimp only
    rw [if_neg fun hnil => hsegments ((Place.intercalate_segments_eq_nil_iff hplace).mp hnil)]
    cases hroot : place.isAbsolute with
    | true => rfl
    | false =>
        obtain ⟨segment, rest, heq⟩ := List.exists_cons_of_ne_nil hsegments
        obtain ⟨hne, hslash⟩ := hplace.segments segment (heq ▸ List.mem_cons_self)
        obtain ⟨c, segment, rfl⟩ := List.exists_cons_of_ne_nil hne
        have hc : c ≠ '/' := fun h => hslash (h ▸ List.mem_cons_self)
        rw [heq, List.intercalate_cons_cons_left]
        simpa [isAbsolute] using hc

theorem placeOf_text (trailing : Bool) : placeOf (place.text trailing) = place := by
  rw [placeOf, isAbsolute_text hplace, Place.text_eq hplace,
    List.splitOn_intercalate '/' (hplace.pieces trailing) (Place.pieces_ne_nil trailing),
    Place.walk_pieces hplace]

omit hplace in
theorem text_ne_nil (trailing : Bool) : place.text trailing ≠ [] := by
  unfold Place.text
  dsimp only
  split
  · cases place.isAbsolute <;> cases trailing <;> decide
  · rename_i hpath
    simp [hpath]

theorem getLast?_intercalate_segments : (['/'].intercalate place.segments).getLast? ≠ some '/' := by
  rcases List.eq_nil_or_concat place.segments with hnil | ⟨front, last, hsegments⟩
  · rw [hnil]
    exact Option.some_ne_none _ ∘ Eq.symm
  · rw [List.concat_eq_append] at hsegments
    obtain ⟨hne, hslash⟩ := hplace.segments last (by simp [hsegments])
    have hlast : last.getLast? ≠ some '/' := fun h => hslash (List.mem_of_getLast? h)
    rw [hsegments]
    by_cases hfront : front = []
    · rw [hfront, List.nil_append, List.intercalate_singleton]
      exact hlast
    · rw [LineText.intercalate_append hfront (List.cons_ne_nil _ _), List.intercalate_singleton,
        List.append_cons, List.getLast?_append_of_ne_nil _ hne]
      exact hlast

theorem hasTrailingSeparator_text (trailing : Bool) : hasTrailingSeparator (place.text trailing) =
      (trailing || (place.isAbsolute && place.segments = [])) := by
  unfold Place.text hasTrailingSeparator
  by_cases hsegments : place.segments = []
  · rw [hsegments]
    cases place.isAbsolute <;> cases trailing <;> decide
  · have hpath : ['/'].intercalate place.segments ≠ [] := fun hnil =>
      hsegments ((Place.intercalate_segments_eq_nil_iff hplace).mp hnil)
    dsimp only
    rw [if_neg hpath, decide_eq_false hsegments, Bool.and_false, Bool.or_false]
    cases trailing with
    | true => simp
    | false =>
        have hlast := getLast?_intercalate_segments hplace
        simpa [List.getLast?_append_of_ne_nil _ hpath] using hlast

theorem normalize_text (trailing : Bool) :
    normalize (place.text trailing) = place.text trailing := by
  rw [normalize_eq, placeOf_text hplace, hasTrailingSeparator_text hplace]
  cases trailing with
  | true => rfl
  | false =>
      rw [Bool.false_or]
      by_cases hroot : (place.isAbsolute && decide (place.segments = [])) = true
      · obtain ⟨habsolute, hsegments⟩ := Bool.and_eq_true_iff.mp hroot
        rw [Place.text, Place.text, of_decide_eq_true hsegments, habsolute]
        rfl
      · rw [Bool.not_eq_true] at hroot
        rw [hroot]

end

theorem placeOf_normalize (path : Text) : placeOf (normalize path) = placeOf path := by
  rw [normalize_eq, placeOf_text (valid_placeOf path)]

theorem normalize_normalize (path : Text) : normalize (normalize path) = normalize path := by
  rw [normalize_eq path, normalize_text (valid_placeOf path)]

theorem normalize_ne_nil (path : Text) : normalize path ≠ [] := by
  rw [normalize_eq]
  exact text_ne_nil _

section

variable {path : Text} (hpath : path ≠ [])

include hpath

theorem placeOf_append (path' : Text) :
    placeOf (path ++ '/' :: path') = (placeOf path).walk (path'.splitOn '/') := by
  obtain ⟨c, path, rfl⟩ := List.exists_cons_of_ne_nil hpath
  rw [placeOf, List.splitOn_append_cons_self, Place.walk_append]
  rfl

theorem join_eq {path' : Text} (hpath' : path' ≠ []) :
    join path path' = normalize (path ++ '/' :: path') := by
  have hjoined : ['/'].intercalate ([path, path'].filter (· ≠ [])) = path ++ '/' :: path' := by
    rw [List.filter_eq_self.mpr (by simp [hpath, hpath'])]
    simp [List.intercalate]
  rw [join, hjoined]
  exact if_neg (by simp)

end

namespace Place

/-- The place is reached through an entry whose name continues the last name of the base. -/
def BesideLonger (base place : Place) : Prop :=
  place.ups = base.ups ∧ ∃ front last suffix rest, suffix ≠ [] ∧ base.names = front ++ [last] ∧
    place.names = front ++ (last ++ suffix) :: rest

/-- The place lies further up than a base without names.  The base `./` is the exception. -/
def AboveUnnamed (base place : Place) (trailing : Bool) : Prop :=
  base.isAbsolute = false ∧ base.names = [] ∧ base.ups < place.ups ∧
    (base.ups = 0 → trailing = false)

theorem filter_pieces {place : Place} (hplace : place.Valid) (trailing : Bool) :
    (place.pieces trailing).filter (fun piece => piece ≠ [] ∧ piece ≠ dot) = place.segments := by
  have hblank : ∀ condition : Bool, (if condition then [([] : Text)] else []).filter
      (fun piece => piece ≠ [] ∧ piece ≠ dot) = [] := by
    intro condition
    cases condition <;> rfl
  have hdotdot : dotdot ≠ dot := by decide
  unfold pieces
  by_cases hsegments : place.segments = []
  · rw [if_pos hsegments, hsegments]
    cases place.isAbsolute <;> cases trailing <;> rfl
  · rw [if_neg hsegments, List.filter_append, List.filter_append, hblank, hblank, List.nil_append,
      List.append_nil, List.filter_eq_self]
    intro segment hsegment
    rw [decide_eq_true_eq]
    refine ⟨(hplace.segments segment hsegment).1, ?_⟩
    rcases List.mem_append.mp hsegment with hup | hname
    · rw [List.eq_of_mem_replicate hup]
      exact hdotdot
    · exact (hplace.names segment hname).notDot

section

variable {base place : Place} (hbase : base.Valid) (hplace : place.Valid)
  (hroot : place.isAbsolute = base.isAbsolute) (hups : base.ups ≤ place.ups)

include hups in
theorem segments_eq {rest : List Text} (hrest : rest.head? ≠ some dotdot)
    (hsegments : place.segments = List.replicate base.ups dotdot ++ rest) :
    place.ups = base.ups ∧ place.names = rest := by
  obtain ⟨more, hmore⟩ := Nat.exists_eq_add_of_le hups
  rw [segments, hmore, List.replicate_add, List.append_assoc,
    List.append_cancel_left_eq] at hsegments
  cases more with
  | zero => exact ⟨hmore, hsegments⟩
  | succ more =>
      rw [← hsegments] at hrest
      exact absurd rfl hrest

theorem pieces_of_names {names : List Text} (hne : names ≠ []) (hnames : place.names = names)
    (trailing : Bool) : place.pieces trailing = (if place.isAbsolute then [[]] else []) ++
      (List.replicate place.ups dotdot ++ names) ++ if trailing then [[]] else [] := by
  have hsegments : place.segments ≠ [] := fun hnil =>
    hne (hnames.symm.trans (segments_eq_nil_iff.mp hnil).2)
  rw [pieces, if_neg hsegments, segments, hnames]

section Named

variable {front : List Text} {last : Text} (hnames : base.names = front ++ [last])

include hbase hnames in
theorem not_slash_front : (∀ piece ∈ (if base.isAbsolute then [[]] else []) ++
      (List.replicate base.ups dotdot ++ front), '/' ∉ piece) ∧ IsName last ∧
        ∀ name ∈ front, IsName name := by
  have hall := hbase.names
  rw [hnames, List.forall_mem_append, List.forall_mem_singleton] at hall
  refine ⟨?_, hall.2, hall.1⟩
  rw [List.forall_mem_append, List.forall_mem_append]
  refine ⟨?_, fun piece hpiece => ?_, fun name hname => (hall.1 name hname).oneSegment⟩
  · cases base.isAbsolute <;> decide
  · rw [List.eq_of_mem_replicate hpiece]
    decide

include hbase hplace hups hnames in
theorem names_of_pieces {suffix : Text} {rest : List Text} {trailing : Bool}
    (hpieces : place.pieces trailing = (if base.isAbsolute then [[]] else []) ++
      (List.replicate base.ups dotdot ++ front) ++ (last ++ suffix) :: rest) :
    place.ups = base.ups ∧ ∃ rest', place.names = front ++ (last ++ suffix) :: rest' := by
  obtain ⟨-, hlast, hfront⟩ := not_slash_front hbase hnames
  have hlong : last ++ suffix ≠ [] ∧ last ++ suffix ≠ dot ∧ last ++ suffix ≠ dotdot := by
    obtain ⟨c, name, rfl⟩ := List.exists_cons_of_ne_nil hlast.nonempty
    refine ⟨List.cons_ne_nil _ _, fun heq => hlast.notDot ?_, fun heq => ?_⟩
    · obtain ⟨rfl, hrest⟩ := List.cons.inj heq
      rw [(List.append_eq_nil_iff.mp hrest).1]
      rfl
    · obtain ⟨rfl, hrest⟩ := List.cons.inj heq
      cases name with
      | nil => exact hlast.notDot rfl
      | cons d name =>
          obtain ⟨rfl, htail⟩ := List.cons.inj hrest
          have hname : name = [] := (List.append_eq_nil_iff.mp htail).1
          exact hlast.notDotdot (by rw [hname]; rfl)
  have hkept : ∀ name, IsName name → (decide (name ≠ [] ∧ name ≠ dot)) = true := by
    intro name hname
    rw [decide_eq_true_eq]
    exact ⟨hname.nonempty, hname.notDot⟩
  have hdotdots : (List.replicate base.ups dotdot).filter
      (fun piece => piece ≠ [] ∧ piece ≠ dot) = List.replicate base.ups dotdot := by
    rw [List.filter_eq_self]
    intro piece hpiece
    rw [List.eq_of_mem_replicate hpiece]
    decide
  have hroot : (if base.isAbsolute then [([] : Text)] else []).filter
      (fun piece => piece ≠ [] ∧ piece ≠ dot) = [] := by
    cases base.isAbsolute <;> rfl
  have hsegments := filter_pieces hplace trailing
  rw [hpieces, List.filter_append, List.filter_append, List.filter_append, hroot, hdotdots,
    List.filter_eq_self.mpr fun name hname => hkept name (hfront name hname),
    List.filter_cons_of_pos (by rw [decide_eq_true_eq]; exact ⟨hlong.1, hlong.2.1⟩),
    List.nil_append, List.append_assoc] at hsegments
  have hhead : (front ++ (last ++ suffix) ::
      rest.filter fun piece => piece ≠ [] ∧ piece ≠ dot).head? ≠ some dotdot := by
    cases front with
    | nil => exact fun heq => hlong.2.2 (Option.some.inj heq)
    | cons name front =>
        exact fun heq => (hfront name List.mem_cons_self).notDotdot (Option.some.inj heq)
  obtain ⟨hups', hnames'⟩ := segments_eq hups hhead hsegments.symm
  exact ⟨hups', _, hnames'⟩

include hbase hplace hups hnames hroot in
/-- What begins with the text of a base that ends in a name. -/
theorem text_prefix_iff (trailing : Bool) : base.text false <+: place.text trailing ↔
      place.ups = base.ups ∧ ∃ suffix rest, place.names = front ++ (last ++ suffix) :: rest := by
  obtain ⟨hfront, hlast, -⟩ := not_slash_front hbase hnames
  have hpieces : base.pieces false = (if base.isAbsolute then [[]] else []) ++
      (List.replicate base.ups dotdot ++ front) ++ [last] := by
    rw [pieces_of_names (by simp) hnames]
    simp
  rw [text_eq hbase, text_eq hplace, hpieces,
    LineText.intercalate_prefix_iff (pieces_ne_nil trailing) hfront hlast.oneSegment
      (hplace.pieces trailing)]
  constructor
  · rintro ⟨suffix, rest, hplaced⟩
    obtain ⟨hups', rest', hnames'⟩ := names_of_pieces hbase hplace hups hnames hplaced
    exact ⟨hups', suffix, rest', hnames'⟩
  · rintro ⟨hups', suffix, rest, hnames'⟩
    refine ⟨suffix, rest ++ if trailing then [[]] else [], ?_⟩
    rw [pieces_of_names (by simp) hnames', hroot, hups']
    simp only [List.append_assoc, List.cons_append]

include hbase hplace hups hnames hroot in
theorem within_of_prefix_text {trailing : Bool} (hbegins : base.text true <+: place.text trailing) :
    base.Within place := by
  obtain ⟨hfront, hlast, -⟩ := not_slash_front hbase hnames
  have hpieces : base.pieces true = ((if base.isAbsolute then [[]] else []) ++
      (List.replicate base.ups dotdot ++ front) ++ [last]) ++ [[]] := by
    rw [pieces_of_names (by simp) hnames]
    simp
  have hall : ∀ piece ∈ (if base.isAbsolute then [[]] else []) ++
      (List.replicate base.ups dotdot ++ front) ++ [last], '/' ∉ piece := by
    rw [List.forall_mem_append, List.forall_mem_singleton]
    exact ⟨hfront, hlast.oneSegment⟩
  rw [text_eq hbase, text_eq hplace, hpieces,
    LineText.intercalate_prefix_iff (pieces_ne_nil trailing) hall List.not_mem_nil
      (hplace.pieces trailing)] at hbegins
  obtain ⟨suffix, rest, hplaced⟩ := hbegins
  rw [List.append_assoc _ [last], List.singleton_append, ← List.append_nil last] at hplaced
  obtain ⟨hups', rest', hnames'⟩ := names_of_pieces hbase hplace hups hnames hplaced
  refine ⟨hroot, hups', ?_⟩
  rw [hnames, hnames', List.append_nil]
  exact ⟨rest', by simp⟩

end Named

include hbase hplace hroot in
/-- What begins with the text of a base without names, further up. -/
theorem above_text_prefix_iff (hrelative : base.isAbsolute = false) (hnil : base.names = [])
    (habove : base.ups < place.ups) (trailing trailing' : Bool) :
    base.text trailing <+: place.text trailing' ↔ (base.ups = 0 → trailing = false) := by
  obtain ⟨more, hmore⟩ := Nat.exists_eq_add_of_lt habove
  have hsegments : place.segments = List.replicate base.ups dotdot ++
      dotdot :: (List.replicate more dotdot ++ place.names) := by
    rw [segments, hmore, Nat.add_assoc, List.replicate_add, List.replicate_succ, List.append_assoc,
      List.cons_append]
  have hplaced : place.pieces trailing' = List.replicate base.ups dotdot ++
      dotdot :: (List.replicate more dotdot ++ place.names ++
        if trailing' then [[]] else []) := by
    rw [pieces, if_neg (by simp [hsegments]), hsegments, hroot, hrelative]
    simp
  cases hcount : base.ups with
  | zero =>
      have htext : ∃ rest, place.text trailing' = '.' :: '.' :: rest := by
        rw [text_eq hplace, hplaced, hcount, List.replicate_zero, List.nil_append, dotdot,
          List.intercalate_cons_cons_left, List.intercalate_cons_cons_left]
        exact ⟨_, rfl⟩
      obtain ⟨rest, htext⟩ := htext
      have hempty : base.segments = [] := segments_eq_nil_iff.mpr ⟨hcount, hnil⟩
      rw [htext, text, hempty, hrelative]
      cases trailing with
      | false => simp [dot]
      | true => simp
  | succ count =>
      have hempty : base.segments ≠ [] := fun h => by
        rw [(segments_eq_nil_iff.mp h).1] at hcount
        exact absurd hcount (Nat.succ_ne_zero count).symm
      have hups : ∀ ups, ∀ piece ∈ List.replicate ups dotdot, '/' ∉ piece := by
        intro ups piece hpiece
        rw [List.eq_of_mem_replicate hpiece]
        decide
      refine ⟨fun _ h => absurd h (Nat.succ_ne_zero count), fun _ => ?_⟩
      rw [text_eq hbase, text_eq hplace, pieces, if_neg hempty, segments, hnil, hrelative, hcount]
      simp only [Bool.false_eq_true, if_false, List.append_nil, List.nil_append]
      cases trailing with
      | true =>
          apply (LineText.intercalate_prefix_iff (pieces_ne_nil trailing') (hups _)
            List.not_mem_nil (hplace.pieces trailing')).mpr
          rw [hplaced, hcount]
          exact ⟨dotdot, _, rfl⟩
      | false =>
          rw [if_neg Bool.false_ne_true, List.append_nil, List.replicate_succ']
          apply (LineText.intercalate_prefix_iff (pieces_ne_nil trailing') (hups _)
            (by decide) (hplace.pieces trailing')).mpr
          rw [hplaced, hcount, List.replicate_succ', List.append_assoc, List.singleton_append]
          exact ⟨[], _, rfl⟩

include hbase hplace hroot hups in
/-- The text of a place outside the base begins with that of the base exactly in two cases. -/
theorem text_prefix_outside_iff (trailing trailing' : Bool) :
    (base.text trailing <+: place.text trailing' ∧ ¬base.Within place) ↔
      (trailing = false ∧ base.BesideLonger place) ∨ base.AboveUnnamed place trailing := by
  rcases List.eq_nil_or_concat base.names with hnil | ⟨front, last, hnames⟩
  · have hbeside : ¬base.BesideLonger place := by
      rintro ⟨-, front, last, -, -, -, hnames, -⟩
      rw [hnil] at hnames
      exact List.append_ne_nil_of_right_ne_nil _ (List.cons_ne_nil _ _) hnames.symm
    have hwithin : base.Within place ↔ place.ups = base.ups :=
      ⟨fun hwithin => hwithin.sameUps, fun hsame => ⟨hroot, hsame, hnil ▸ List.nil_prefix⟩⟩
    rw [hwithin, or_iff_right fun h => hbeside h.2]
    constructor
    · rintro ⟨hbegins, houtside⟩
      have habove : base.ups < place.ups := lt_of_le_of_ne hups (Ne.symm houtside)
      cases hrelative : base.isAbsolute with
      | true =>
          rw [hplace.root (hroot.trans hrelative)] at habove
          exact absurd habove (Nat.not_lt_zero _)
      | false =>
          exact ⟨hrelative, hnil, habove,
            (above_text_prefix_iff hbase hplace hroot hrelative hnil habove _ _).mp hbegins⟩
    · rintro ⟨hrelative, -, habove, htrailing⟩
      exact ⟨(above_text_prefix_iff hbase hplace hroot hrelative hnil habove _ _).mpr htrailing,
        habove.ne'⟩
  · rw [List.concat_eq_append] at hnames
    have hnamed : base.names ≠ [] := by simp [hnames]
    constructor
    · rintro ⟨hbegins, houtside⟩
      cases trailing with
      | true => exact absurd (within_of_prefix_text hbase hplace hroot hups hnames hbegins) houtside
      | false =>
          obtain ⟨hups', suffix, rest, hnames'⟩ :=
            (text_prefix_iff hbase hplace hroot hups hnames trailing').mp hbegins
          refine Or.inl ⟨rfl, hups', front, last, suffix, rest, ?_, hnames, hnames'⟩
          intro hsuffix
          refine houtside ⟨hroot, hups', ?_⟩
          rw [hnames, hnames', hsuffix, List.append_nil]
          exact ⟨rest, by simp⟩
    · rintro (⟨rfl, hups', front', last', suffix, rest, hsuffix, hbase', hnames'⟩ | habove)
      · obtain ⟨hfront, hlast⟩ := List.append_inj' (hnames.symm.trans hbase') rfl
        rw [← hfront, ← List.singleton_inj.mp hlast] at hnames'
        refine ⟨(text_prefix_iff hbase hplace hroot hups hnames trailing').mpr
          ⟨hups', suffix, rest, hnames'⟩, fun hwithin => ?_⟩
        have hbegins := hwithin.names
        rw [hnames, hnames', List.prefix_append_right_inj, List.cons_prefix_cons] at hbegins
        exact hsuffix (List.append_right_eq_self.mp hbegins.1.symm)
      · exact absurd habove.2.1 hnamed

end

end Place

end PosixPath
