import CompileWatch.Proofs.Storage.Positions

/-!
# Routes

The walks that arrive are described once more as routes over the layout of a tree,
one constructor for each thing that a walk may meet (`Route`), and `route_iff` says
that these are all of them. What is asked of a path is asked of the position that it
leads to (`Leads`).

Routes make it plain what a walk depends on. It arrives where it did when more is
added to the layout (`Route.mono`). And taking away what stands at one place either
leaves a route to a directory as it is, or there was a link at the place, and the
route led through it (`Route.without`).
-/

namespace CompileWatch.Disk

open CompileWatch.Path

/-! ## Routes -/

/-- Where the steps of a path text start that is met in the directory at a position. -/
def startAt (text : String) (place : Position) : Position :=
  if text.startsWith "/" then [] else place

/-- Whether a step is the name of an entry. -/
def IsEntryName (name : String) : Prop :=
  name ≠ "." ∧ name ≠ ".." ∧ name.utf8ByteSize ≤ nameLimit

instance (name : String) : Decidable (IsEntryName name) :=
  inferInstanceAs (Decidable (name ≠ "." ∧ name ≠ ".." ∧ name.utf8ByteSize ≤ nameLimit))

/-- Where steps lead from a position, by what stands at the positions of a tree. -/
inductive Route (m : Layout) (follow : Bool) : Nat → Position → List String → Position → Prop
  | done {links place} : Route m follow links place [] place
  | dot {links place rest target} (next : Route m follow links place rest target) :
      Route m follow links place ("." :: rest) target
  | dots {links place rest target} (next : Route m follow links place.dropLast rest target) :
      Route m follow links place (".." :: rest) target
  | enter {links place name rest target} (hname : IsEntryName name)
      (here : m (place ++ [name]) = some .directory)
      (next : Route m follow links (place ++ [name]) rest target) :
      Route m follow links place (name :: rest) target
  | file {links place name} (hname : IsEntryName name)
      (here : m (place ++ [name]) = some .file) :
      Route m follow links place [name] (place ++ [name])
  | link {links place name text} (hname : IsEntryName name)
      (here : m (place ++ [name]) = some (.link text)) (hfollow : follow = false) :
      Route m follow links place [name] (place ++ [name])
  | through {links place name text rest target} (hname : IsEntryName name)
      (here : m (place ++ [name]) = some (.link text)) (hfollow : rest = [] → follow = true)
      (next : Route m follow links (startAt text place) (steps text ++ rest) target) :
      Route m follow (links + 1) place (name :: rest) target

theorem position_startOf (t : Tree) (text : String) (s : Spot) :
    (startOf t text s).position = startAt text s.position := by
  unfold startOf startAt
  split <;> rfl

theorem shape_cases {n : Node} {shape : Shape} (h : n.item.shape = shape) :
    (shape = .directory ∧ ∃ nodes, n = .directory nodes) ∨
      (shape = .file ∧ ∃ bytes time, n = .file bytes time) ∨
      ∃ target, shape = .link target ∧ n = .link target := by
  subst h
  cases n with
  | directory nodes => exact .inl ⟨rfl, nodes, rfl⟩
  | file bytes time => exact .inr (.inl ⟨rfl, bytes, time, rfl⟩)
  | link target => exact .inr (.inr ⟨target, rfl, rfl⟩)

section Walks

variable {t : Tree} {follow : Bool} {links : Nat} {dir spot : Spot} {todo : List String}

theorem route_of_walk (hdir : dir.StandsIn t) (hw : walk t follow links dir todo = .ok spot) :
    Route t.layout follow links dir.position todo spot.position := by
  fun_induction walk t follow links dir todo with
  | case1 => cases hw; exact .done
  | case2 _ _ _ ih => exact .dot (ih hdir hw)
  | case3 links dir rest _ ih =>
      refine .dots ?_
      rw [← Spot.position_up]
      exact ih ((roams_standing t).up hdir) hw
  | case4 => cases hw
  | case5 => cases hw
  | case6 links dir step rest hdot hdots hshort next hd nodes hhere ih =>
      obtain ⟨child, hc, rfl⟩ := Option.map_eq_some_iff.1 hd
      obtain rfl : child = .directory nodes := hhere
      have hnext := ih ((roams_standing t).down hdir hd) hw
      rw [Spot.position_down] at hnext
      refine .enter ⟨hdot, hdots, Nat.le_of_not_lt hshort⟩ ?_ hnext
      rw [hdir.layout_child, hc]
      rfl
  | case7 links dir step hdot hdots hshort next hd bytes time hhere =>
      obtain ⟨child, hc, rfl⟩ := Option.map_eq_some_iff.1 hd
      obtain rfl : child = .file bytes time := hhere
      cases hw
      rw [Spot.position_down]
      refine .file ⟨hdot, hdots, Nat.le_of_not_lt hshort⟩ ?_
      rw [hdir.layout_child, hc]
      rfl
  | case8 => cases hw
  | case9 links dir step rest hdot hdots hshort next hd target hhere hlast =>
      obtain ⟨child, hc, rfl⟩ := Option.map_eq_some_iff.1 hd
      obtain rfl : child = .link target := hhere
      cases hw
      simp only [Bool.and_eq_true, decide_eq_true_eq, Bool.not_eq_true'] at hlast
      obtain ⟨rfl, hfollow⟩ := hlast
      have here : t.layout (dir.position ++ [step]) = some (.link target) := by
        rw [hdir.layout_child, hc]
        rfl
      rw [Spot.position_down]
      exact .link ⟨hdot, hdots, Nat.le_of_not_lt hshort⟩ here hfollow
  | case10 => cases hw
  | case11 dir step rest hdot hdots hshort next hd target hhere hlast links ih =>
      obtain ⟨child, hc, rfl⟩ := Option.map_eq_some_iff.1 hd
      obtain rfl : child = .link target := hhere
      have hnext := ih ((roams_standing t).startOf hdir target) hw
      rw [position_startOf] at hnext
      have here : t.layout (dir.position ++ [step]) = some (.link target) := by
        rw [hdir.layout_child, hc]
        rfl
      exact .through ⟨hdot, hdots, Nat.le_of_not_lt hshort⟩ here (by simpa using hlast) hnext

/-- The entry that stands where a route goes on. -/
theorem exists_down {name : String} {shape : Shape} (hdir : dir.StandsIn t)
    (here : t.layout (dir.position ++ [name]) = some shape) :
    ∃ child, dir.down? name = some ⟨child, (name, dir.here) :: dir.above⟩ ∧
      child.item.shape = shape := by
  rw [hdir.layout_child] at here
  obtain ⟨child, hc, hshape⟩ := Option.map_eq_some_iff.1 here
  exact ⟨child, by rw [Spot.down?, hc]; rfl, hshape⟩

theorem walk_of_route {place target : Position}
    (hr : Route t.layout follow links place todo target) :
    ∀ {dir : Spot}, dir.StandsIn t → dir.position = place →
      ∃ spot, walk t follow links dir todo = .ok spot ∧ spot.position = target := by
  have hstep : ∀ {name}, IsEntryName name → name ≠ "." ∧ name ≠ ".." ∧
      ¬ nameLimit < name.utf8ByteSize := fun hname => ⟨hname.1, hname.2.1, Nat.not_lt.2 hname.2.2⟩
  induction hr with
  | done => exact fun {dir} _ hplace => ⟨dir, by rw [walk], hplace⟩
  | dot next ih =>
      intro dir hdir hplace
      rw [walk, if_pos rfl]
      exact ih hdir hplace
  | dots next ih =>
      intro dir hdir hplace
      rw [walk, if_neg (by decide), if_pos rfl]
      exact ih ((roams_standing t).up hdir) (by rw [Spot.position_up, hplace])
  | enter hname here next ih =>
      rintro dir hdir rfl
      obtain ⟨hdot, hdots, hshort⟩ := hstep hname
      obtain ⟨child, hd, hshape⟩ := exists_down hdir here
      obtain ⟨nodes, rfl⟩ := Node.item_eq_directory.1 (Item.shape_eq_directory.1 hshape)
      rw [walk, if_neg hdot, if_neg hdots, if_neg hshort, hd]
      exact ih ((roams_standing t).down hdir hd) (Spot.position_down ..)
  | file hname here =>
      rintro dir hdir rfl
      obtain ⟨hdot, hdots, hshort⟩ := hstep hname
      obtain ⟨child, hd, hshape⟩ := exists_down hdir here
      obtain ⟨h, _⟩ | ⟨-, bytes, time, rfl⟩ | ⟨_, h, _⟩ := shape_cases hshape
      · cases h
      · rw [walk, if_neg hdot, if_neg hdots, if_neg hshort, hd]
        exact ⟨⟨.file bytes time, _⟩, by simp, Spot.position_down ..⟩
      · cases h
  | link hname here hfollow =>
      rintro dir hdir rfl
      obtain ⟨hdot, hdots, hshort⟩ := hstep hname
      obtain ⟨child, hd, hshape⟩ := exists_down hdir here
      obtain ⟨h, _⟩ | ⟨h, _⟩ | ⟨text, h, rfl⟩ := shape_cases hshape
      · cases h
      · cases h
      · rw [walk, if_neg hdot, if_neg hdots, if_neg hshort, hd]
        exact ⟨⟨.link text, _⟩, by simp [hfollow], Spot.position_down ..⟩
  | through hname here hfollow next ih =>
      rintro dir hdir rfl
      obtain ⟨hdot, hdots, hshort⟩ := hstep hname
      obtain ⟨child, hd, hshape⟩ := exists_down hdir here
      obtain ⟨h, _⟩ | ⟨h, _⟩ | ⟨text, h, rfl⟩ := shape_cases hshape
      · cases h
      · cases h
      · cases h
        rw [walk, if_neg hdot, if_neg hdots, if_neg hshort, hd]
        dsimp only
        rw [if_neg (by simpa using hfollow)]
        exact ih ((roams_standing t).startOf hdir _) (position_startOf ..)

/-- The walks of a tree that arrive are the routes over its layout. -/
theorem route_iff (hdir : dir.StandsIn t) {target : Position} :
    (∃ spot, walk t follow links dir todo = .ok spot ∧ spot.position = target) ↔
      Route t.layout follow links dir.position todo target := by
  constructor
  · rintro ⟨spot, hw, rfl⟩
    exact route_of_walk hdir hw
  · exact fun hr => walk_of_route hr hdir rfl

end Walks

/-! ## What routes depend on -/

namespace Route

variable {m : Layout} {follow : Bool} {links : Nat} {start target : Position} {todo : List String}

/-- More in a layout leaves routes as they are. -/
theorem mono {wider : Layout} (hm : ∀ place shape, m place = some shape → wider place = some shape)
    (hr : Route m follow links start todo target) : Route wider follow links start todo target := by
  induction hr with
  | done => exact .done
  | dot _ ih => exact .dot ih
  | dots _ ih => exact .dots ih
  | enter hname here _ ih => exact .enter hname (hm _ _ here) ih
  | file hname here => exact .file hname (hm _ _ here)
  | link hname here hfollow => exact .link hname (hm _ _ here) hfollow
  | through hname here hfollow _ ih => exact .through hname (hm _ _ here) hfollow ih

/-- A route goes on from a directory as from anywhere else. -/
theorem append {dir : Position} {more : List String} (hr : Route m true links start todo dir)
    (hdir : m dir = some .directory) (hmore : more ≠ [])
    (next : ∀ left, Route m follow left dir more target) :
    Route m follow links start (todo ++ more) target := by
  induction hr with
  | done => exact next _
  | dot _ ih => exact .dot (ih hdir next)
  | dots _ ih => exact .dots (ih hdir next)
  | enter hname here _ ih => exact .enter hname here (ih hdir next)
  | file hname here => rw [here] at hdir; cases hdir
  | link hname here hfollow => cases hfollow
  | through hname here hfollow _ ih =>
      refine .through hname here (fun hnil => ?_) ?_
      · exact absurd (List.append_eq_nil_iff.1 hnil).2 hmore
      · have hnext := ih hdir next
        rwa [List.append_assoc] at hnext

section Inversion

variable {name text : String} {rest : List String}

theorem of_dot (hr : Route m follow links start (name :: rest) target) (hname : name = ".") :
    Route m follow links start rest target := by
  cases hr with
  | dot next => exact next
  | dots => exact absurd hname (by decide)
  | enter hentry => exact absurd hname hentry.1
  | file hentry => exact absurd hname hentry.1
  | link hentry => exact absurd hname hentry.1
  | through hentry => exact absurd hname hentry.1

theorem of_dots (hr : Route m follow links start (name :: rest) target) (hname : name = "..") :
    Route m follow links start.dropLast rest target := by
  cases hr with
  | dot => exact absurd hname (by decide)
  | dots next => exact next
  | enter hentry => exact absurd hname hentry.2.1
  | file hentry => exact absurd hname hentry.2.1
  | link hentry => exact absurd hname hentry.2.1
  | through hentry => exact absurd hname hentry.2.1

variable (hname : IsEntryName name) (hr : Route m follow links start (name :: rest) target)

include hname hr

theorem of_directory (here : m (start ++ [name]) = some .directory) :
    Route m follow links (start ++ [name]) rest target := by
  cases hr with
  | dot => exact absurd rfl hname.1
  | dots => exact absurd rfl hname.2.1
  | enter _ _ next => exact next
  | file _ other => rw [here] at other; cases other
  | link _ other => rw [here] at other; cases other
  | through _ other => rw [here] at other; cases other

theorem of_file (here : m (start ++ [name]) = some .file) : rest = [] := by
  cases hr with
  | dot => exact absurd rfl hname.1
  | dots => exact absurd rfl hname.2.1
  | enter _ other => rw [here] at other; cases other
  | file => rfl
  | link => rfl
  | through _ other => rw [here] at other; cases other

theorem of_link (here : m (start ++ [name]) = some (.link text)) (hrest : rest ≠ []) :
    ∃ left, links = left + 1 ∧
      Route m follow left (startAt text start) (steps text ++ rest) target := by
  cases hr with
  | dot => exact absurd rfl hname.1
  | dots => exact absurd rfl hname.2.1
  | enter _ other => rw [here] at other; cases other
  | file => exact absurd rfl hrest
  | link => exact absurd rfl hrest
  | through _ other _ next =>
      rw [here] at other
      cases other
      exact ⟨_, rfl, next⟩

end Inversion

end Route

/-- A layout with nothing at a place. -/
def Layout.without (m : Layout) (place : Position) : Layout :=
  fun other => if other = place then none else m other

theorem Layout.without_of_ne {m : Layout} {place other : Position} (h : other ≠ place) :
    m.without place other = m other := if_neg h

/-- Nothing but a link can be on the way to a directory. Without it there is no way, and none that
goes on if a file stands in its stead. -/
theorem Route.without {m : Layout} {links : Nat} {start dir place : Position} {todo : List String}
    (hr : Route m true links start todo dir) (hdir : m dir = some .directory)
    (hplace : m place ≠ some .directory) :
    Route (m.without place) true links start todo dir ∨
      (∃ text, m place = some (.link text)) ∧
        ∀ changed : Layout, (∀ other, other ≠ place → changed other = m other) →
          changed place = some .file → ∀ follow more target, more ≠ [] →
            ¬ Route changed follow links start (todo ++ more) target := by
  induction hr with
  | done => exact .inl .done
  | dot _ ih =>
      refine (ih hdir).imp .dot fun ⟨hlink, hcut⟩ => ⟨hlink, ?_⟩
      exact fun changed hsame hfile follow more target hmore hr =>
        hcut changed hsame hfile follow more target hmore (hr.of_dot rfl)
  | dots _ ih =>
      refine (ih hdir).imp .dots fun ⟨hlink, hcut⟩ => ⟨hlink, ?_⟩
      exact fun changed hsame hfile follow more target hmore hr =>
        hcut changed hsame hfile follow more target hmore (hr.of_dots rfl)
  | @enter links start name rest dir hname here _ ih =>
      have hne : start ++ [name] ≠ place := fun heq => hplace (heq ▸ here)
      refine (ih hdir).imp (.enter hname ((Layout.without_of_ne hne).trans here))
        fun ⟨hlink, hcut⟩ => ⟨hlink, ?_⟩
      exact fun changed hsame hfile follow more target hmore hr =>
        hcut changed hsame hfile follow more target hmore
          (hr.of_directory hname ((hsame _ hne).trans here))
  | file hname here => rw [here] at hdir; cases hdir
  | link _ _ hfollow => cases hfollow
  | @through links start name text rest dir hname here hfollow _ ih =>
      by_cases heq : start ++ [name] = place
      · refine .inr ⟨⟨text, heq ▸ here⟩, ?_⟩
        intro changed _ hfile follow more target hmore hr
        exact hmore (List.append_eq_nil_iff.1 (hr.of_file hname (heq ▸ hfile))).2
      · refine (ih hdir).imp (.through hname ((Layout.without_of_ne heq).trans here) hfollow)
          fun ⟨hlink, hcut⟩ => ⟨hlink, ?_⟩
        intro changed hsame hfile follow more target hmore hr
        obtain ⟨left, hleft, next⟩ := hr.of_link hname ((hsame _ heq).trans here)
          (fun hnil => hmore (List.append_eq_nil_iff.1 hnil).2)
        cases hleft
        refine hcut changed hsame hfile follow more target hmore ?_
        rw [List.append_assoc]
        exact next

/-! ## Where paths lead -/

/-- The position of the working directory. -/
def homeOn (m : Layout) : Position :=
  homePosition.foldl
    (fun place name => if (m (place ++ [name])).isSome then place ++ [name] else place) []

/-- Whether a path leads to a position, a link at its end being followed or not. -/
def Leads (m : Layout) (follow : Bool) (path : Path) (target : Position) : Prop :=
  checkText path.text = .ok () ∧
    Route m follow linkLimit (startAt path.text (homeOn m)) (steps path.text) target

theorem homeOn_congr {m n : Layout}
    (h : ∀ place, (m (place ++ ["/"])).isSome = (n (place ++ ["/"])).isSome) :
    homeOn m = homeOn n := by
  simp only [homeOn, homePosition, List.foldl_cons, List.foldl_nil, h]

theorem home_standsIn (t : Tree) : t.home.StandsIn t := (roams_standing t).home

theorem position_home (t : Tree) : t.home.position = homeOn t.layout := by
  have hfold : ∀ (names : List String) (s : Spot), s.StandsIn t →
      (names.foldl (fun s name => (s.down? name).getD s) s).position =
        names.foldl (fun place name =>
          if (t.layout (place ++ [name])).isSome then place ++ [name] else place) s.position := by
    intro names
    induction names with
    | nil => exact fun _ _ => rfl
    | cons name rest ih =>
        intro s hs
        rw [List.foldl_cons, List.foldl_cons, hs.layout_child]
        cases hc : s.here.child? name with
        | none =>
            rw [Spot.down?, hc]
            exact ih s hs
        | some child =>
            have hd : s.down? name = some ⟨child, (name, s.here) :: s.above⟩ := by
              rw [Spot.down?, hc]
              rfl
            have hnext := ih _ ((roams_standing t).down hs hd)
            rw [Spot.position_down] at hnext
            rw [hd]
            exact hnext
  exact hfold homePosition t.top (roams_standing t).top

section Locating

variable {t : Tree} {path : Path} {target : Position}

theorem position_start (t : Tree) (text : String) :
    (startOf t text t.home).position = startAt text (homeOn t.layout) := by
  rw [position_startOf, position_home]

theorem start_standsIn (t : Tree) (text : String) : (startOf t text t.home).StandsIn t :=
  (roams_standing t).startOf (home_standsIn t) text

theorem locate_iff : (∃ spot, locate t path = .ok spot ∧ spot.position = target) ↔
    Leads t.layout true path target := by
  unfold locate Leads
  cases checkText path.text with
  | error e => simp [bind, Except.bind]
  | ok u =>
      rw [← position_start, ← route_iff (start_standsIn t path.text)]
      exact ⟨fun h => ⟨rfl, h⟩, fun h => h.2⟩

theorem Leads.mono {m wider : Layout} {follow : Bool} (hl : Leads m follow path target)
    (hm : ∀ place shape, m place = some shape → wider place = some shape)
    (hhome : homeOn wider = homeOn m) : Leads wider follow path target :=
  ⟨hl.1, hhome ▸ hl.2.mono hm⟩

end Locating

/-! ## What is answered of a path -/

/-- The time that is answered for an item. -/
def Item.time : Item → Timestamp
  | file _ time => time
  | _ => 0

section Answers

variable {t : Tree} {path : Path}

theorem look_of_locate {spot : Spot} (hl : locate t path = .ok spot) :
    t.look spot.position = some spot.here.item :=
  ((roams_standing t).locate hl).look

theorem modified_eq_ok_iff {time : Timestamp} : modified t path = .ok time ↔
    ∃ place item, Leads t.layout true path place ∧ t.look place = some item ∧ item.time = time := by
  have hanswer : ∀ spot, locate t path = .ok spot → modified t path = .ok spot.here.item.time := by
    rintro ⟨here, above⟩ hl
    rw [modified, hl]
    cases here <;> rfl
  constructor
  · intro hm
    cases hl : locate t path with
    | error e => rw [modified, hl] at hm; cases hm
    | ok spot =>
        rw [hanswer spot hl, Except.ok.injEq] at hm
        exact ⟨_, _, locate_iff.1 ⟨spot, hl, rfl⟩, look_of_locate hl, hm⟩
  · rintro ⟨place, item, hleads, hlook, rfl⟩
    obtain ⟨spot, hl, rfl⟩ := locate_iff.2 hleads
    rw [look_of_locate hl, Option.some.injEq] at hlook
    rw [hanswer spot hl, hlook]

theorem read_eq_ok_iff {text : String} : read t path = .ok text ↔
    ∃ place bytes time, Leads t.layout true path place ∧
      t.look place = some (.file bytes time) ∧ String.fromUTF8? bytes = some text := by
  constructor
  · intro hr
    cases hl : locate t path with
    | error e => rw [read, hl] at hr; cases hr
    | ok spot =>
        obtain ⟨here, above⟩ := spot
        cases here with
        | file bytes time =>
            refine ⟨_, bytes, time, locate_iff.1 ⟨_, hl, rfl⟩, look_of_locate hl, ?_⟩
            rw [read, hl] at hr
            dsimp only at hr
            split at hr
            · next hutf => rw [hutf, Except.ok.inj hr]
            · cases hr
        | directory nodes => rw [read, hl] at hr; cases hr
        | link target => rw [read, hl] at hr; cases hr
  · rintro ⟨place, bytes, time, hleads, hlook, htext⟩
    obtain ⟨⟨here, above⟩, hl, rfl⟩ := locate_iff.2 hleads
    rw [look_of_locate hl, Option.some.injEq] at hlook
    cases here with
    | file bytes time =>
        cases hlook
        rw [read, hl]
        dsimp only
        rw [htext]
    | directory nodes => cases hlook
    | link target => cases hlook

end Answers

end CompileWatch.Disk
