/-! The grammar of search conditions: NOT binds tighter than AND, AND tighter than OR, parentheses
   override, and CASE stands in its own brackets. A reader with a stack follows every derivation,
   so a word sequence has at most one meaning. -/
namespace SqlAssembly

inductive Lexeme (α β : Type) where
  | atom : α → Lexeme α β
  | value : β → Lexeme α β
  | neg : Lexeme α β
  | conj : Lexeme α β
  | disj : Lexeme α β
  | opening : Lexeme α β
  | closing : Lexeme α β
  | caseWord : Lexeme α β
  | whenWord : Lexeme α β
  | thenWord : Lexeme α β
  | elseWord : Lexeme α β
  | endWord : Lexeme α β

mutual

inductive Formula (α β : Type) where
  | atom : α → Formula α β
  | neg : Formula α β → Formula α β
  | conj : Formula α β → Formula α β → Formula α β
  | disj : Formula α β → Formula α β → Formula α β
  | case : Branches α β → Formula α β

/-- A CASE has at least one branch. -/
inductive Branches (α β : Type) where
  | last (condition : Formula α β) (value : β) (fallback : Option β) : Branches α β
  | next (condition : Formula α β) (value : β) (rest : Branches α β) : Branches α β

end

inductive Truth where
  | holds : Truth
  | fails : Truth
  | unknown : Truth
  deriving DecidableEq, Repr

namespace Truth

def both : Truth → Truth → Truth
  | .holds, t => t
  | .fails, _ => .fails
  | .unknown, .fails => .fails
  | .unknown, _ => .unknown

def negated : Truth → Truth
  | .holds => .fails
  | .fails => .holds
  | .unknown => .unknown

def either (a b : Truth) : Truth := (a.negated.both b.negated).negated

def all (ts : List Truth) : Truth := ts.foldr both .holds

theorem both_assoc (a b c : Truth) : (a.both b).both c = a.both (b.both c) := by
  cases a <;> cases b <;> cases c <;> rfl

theorem both_holds (a : Truth) : a.both .holds = a := by cases a <;> rfl

end Truth

/-- The truth of the atoms, and of the results of CASE. Where no branch is taken and there is no
    fallback the result is none. -/
structure Valuation (α β : Type) where
  atom : α → Truth
  result : Option β → Truth

variable {α β : Type}

mutual

def Formula.truth (ν : Valuation α β) : Formula α β → Truth
  | .atom a => ν.atom a
  | .neg f => (f.truth ν).negated
  | .conj f g => (f.truth ν).both (g.truth ν)
  | .disj f g => (f.truth ν).either (g.truth ν)
  | .case b => b.truth ν

def Branches.truth (ν : Valuation α β) : Branches α β → Truth
  | .last f v fallback => if f.truth ν = .holds then ν.result (some v) else ν.result fallback
  | .next f v rest => if f.truth ν = .holds then ν.result (some v) else rest.truth ν

end

inductive Level where
  | disjunction : Level
  | conjunction : Level
  | negation : Level
  deriving DecidableEq, Repr

mutual

inductive Parses : Level → List (Lexeme α β) → Formula α β → Prop where
  | atom (a : α) : Parses .negation [.atom a] (.atom a)
  | bracketed {ts f} (inner : Parses .disjunction ts f) :
      Parses .negation (.opening :: (ts ++ [.closing])) f
  | case {ts b} (branches : ParsesBranches ts b) : Parses .negation (.caseWord :: ts) (.case b)
  | neg {ts f} (operand : Parses .negation ts f) : Parses .negation (.neg :: ts) (.neg f)
  | single {ts f} (operand : Parses .negation ts f) : Parses .conjunction ts f
  | conj {ts us f g} (left : Parses .conjunction ts f) (right : Parses .negation us g) :
      Parses .conjunction (ts ++ .conj :: us) (.conj f g)
  | lone {ts f} (operand : Parses .conjunction ts f) : Parses .disjunction ts f
  | disj {ts us f g} (left : Parses .disjunction ts f) (right : Parses .conjunction us g) :
      Parses .disjunction (ts ++ .disj :: us) (.disj f g)

inductive ParsesBranches : List (Lexeme α β) → Branches α β → Prop where
  | last {ts f} (v : β) (condition : Parses .disjunction ts f) :
      ParsesBranches (.whenWord :: (ts ++ [.thenWord, .value v, .endWord])) (.last f v none)
  | fallback {ts f} (v w : β) (condition : Parses .disjunction ts f) :
      ParsesBranches
        (.whenWord :: (ts ++ [.thenWord, .value v, .elseWord, .value w, .endWord]))
        (.last f v (some w))
  | next {ts us f b} (v : β) (condition : Parses .disjunction ts f) (rest : ParsesBranches us b) :
      ParsesBranches (.whenWord :: (ts ++ .thenWord :: .value v :: us)) (.next f v b)

end

inductive Frame (α β : Type) where
  | neg : Frame α β
  | conj : Formula α β → Frame α β
  | disj : Formula α β → Frame α β
  | opening : Frame α β
  | branch : List (Formula α β × β) → Frame α β

inductive Mode (α β : Type) where
  | operand : Mode α β
  | operator : Formula α β → Mode α β
  | when : List (Formula α β × β) → Mode α β
  | result : List (Formula α β × β) → Formula α β → Mode α β
  | branched : List (Formula α β × β) → Formula α β → β → Mode α β
  | fallback : List (Formula α β × β) → Formula α β → β → Mode α β
  | ending : List (Formula α β × β) → Formula α β → β → β → Mode α β

namespace Reader

abbrev State (α β : Type) := Mode α β × List (Frame α β)

def settle : Formula α β → List (Frame α β) → State α β
  | f, .neg :: fs => settle (.neg f) fs
  | f, fs => (.operator f, fs)

def joinConj : Formula α β → List (Frame α β) → Formula α β × List (Frame α β)
  | f, .conj g :: fs => (.conj g f, fs)
  | f, fs => (f, fs)

def joinDisj : Formula α β × List (Frame α β) → Formula α β × List (Frame α β)
  | (f, .disj g :: fs) => (.disj g f, fs)
  | (f, fs) => (f, fs)

/-- The earlier branches are kept last first. -/
def chain (earlier : List (Formula α β × β)) (b : Branches α β) : Branches α β :=
  earlier.foldl (fun b e => .next e.1 e.2 b) b

def step : State α β → Lexeme α β → Option (State α β)
  | (.operand, fs), .atom a => some (settle (.atom a) fs)
  | (.operand, fs), .neg => some (.operand, .neg :: fs)
  | (.operand, fs), .opening => some (.operand, .opening :: fs)
  | (.operand, fs), .caseWord => some (.when [], fs)
  | (.operator f, fs), .conj =>
    some (.operand, .conj (joinConj f fs).1 :: (joinConj f fs).2)
  | (.operator f, fs), .disj =>
    some (.operand, .disj (joinDisj (joinConj f fs)).1 :: (joinDisj (joinConj f fs)).2)
  | (.operator f, fs), .closing =>
    match joinDisj (joinConj f fs) with
    | (g, .opening :: gs) => some (settle g gs)
    | _ => none
  | (.operator f, fs), .thenWord =>
    match joinDisj (joinConj f fs) with
    | (g, .branch earlier :: gs) => some (.result earlier g, gs)
    | _ => none
  | (.when earlier, fs), .whenWord => some (.operand, .branch earlier :: fs)
  | (.result earlier f, fs), .value v => some (.branched earlier f v, fs)
  | (.branched earlier f v, fs), .whenWord => some (.operand, .branch ((f, v) :: earlier) :: fs)
  | (.branched earlier f v, fs), .elseWord => some (.fallback earlier f v, fs)
  | (.branched earlier f v, fs), .endWord =>
    some (settle (.case (chain earlier (.last f v none))) fs)
  | (.fallback earlier f v, fs), .value w => some (.ending earlier f v w, fs)
  | (.ending earlier f v w, fs), .endWord =>
    some (settle (.case (chain earlier (.last f v (some w)))) fs)
  | _, _ => none

def run (s : State α β) (ts : List (Lexeme α β)) : Option (State α β) := ts.foldlM step s

theorem run_cons (s : State α β) (t : Lexeme α β) (ts : List (Lexeme α β)) :
    run s (t :: ts) = (step s t).bind fun s' => run s' ts := by
  rw [run, List.foldlM_cons]
  rfl

theorem run_append (s : State α β) (ts us : List (Lexeme α β)) :
    run s (ts ++ us) = (run s ts).bind fun s' => run s' us := by
  rw [run, List.foldlM_append]
  rfl

/-- The frames on which an operand of the given level is complete by itself. -/
def Bounds : Level → List (Frame α β) → Prop
  | .negation, _ => True
  | .conjunction, fs => (∀ gs, fs ≠ .neg :: gs) ∧ ∀ f gs, fs ≠ .conj f :: gs
  | .disjunction, fs =>
    (∀ gs, fs ≠ .neg :: gs) ∧ (∀ f gs, fs ≠ .conj f :: gs) ∧ ∀ f gs, fs ≠ .disj f :: gs

/-- After an operand of the given level the reader needs only to join what is pending. -/
def Ready : Level → Formula α β → List (Frame α β) → State α β → Prop
  | .negation, f, fs, s => s = settle f fs
  | .conjunction, f, fs, s => ∃ g gs, s = (.operator g, gs) ∧ joinConj g gs = (f, fs)
  | .disjunction, f, fs, s => ∃ g gs, s = (.operator g, gs) ∧ joinDisj (joinConj g gs) = (f, fs)

theorem settle_bounded {f : Formula α β} {fs : List (Frame α β)} (h : ∀ gs, fs ≠ .neg :: gs) :
    settle f fs = (.operator f, fs) := by
  unfold settle
  split
  · rename_i gs
    exact absurd rfl (h gs)
  · rfl

theorem joinConj_bounded {f : Formula α β} {fs : List (Frame α β)}
    (h : ∀ g gs, fs ≠ .conj g :: gs) : joinConj f fs = (f, fs) := by
  unfold joinConj
  split
  · rename_i g gs
    exact absurd rfl (h g gs)
  · rfl

theorem joinDisj_bounded {f : Formula α β} {fs : List (Frame α β)}
    (h : ∀ g gs, fs ≠ .disj g :: gs) : joinDisj (f, fs) = (f, fs) := by
  unfold joinDisj
  split
  · rename_i g gs same
    cases same
    exact absurd rfl (h _ _)
  · rename_i same
    cases same
    rfl

theorem branches_start {ts : List (Lexeme α β)} {b : Branches α β} (h : ParsesBranches ts b) :
    ∃ us, ts = .whenWord :: us := by
  cases h <;> exact ⟨_, rfl⟩

mutual

theorem run_parses : ∀ {l : Level} {ts : List (Lexeme α β)} {f : Formula α β}, Parses l ts f →
    ∀ fs, Bounds l fs → ∃ s, run (.operand, fs) ts = some s ∧ Ready l f fs s
  | _, _, _, .atom a => by
    intro fs _
    exact ⟨_, rfl, rfl⟩
  | _, _, _, @Parses.bracketed _ _ ts _ inner => by
    intro fs _
    obtain ⟨s, reads, g, gs, rfl, joined⟩ := run_parses inner (.opening :: fs) (by simp [Bounds])
    refine ⟨_, ?_, rfl⟩
    rw [run_cons]
    change run (.operand, .opening :: fs) (ts ++ [.closing]) = _
    rw [run_append, reads]
    simp only [Option.bind_some, run_cons, step, joined]
    rfl
  | _, _, _, .case branches => by
    intro fs _
    refine ⟨_, ?_, rfl⟩
    rw [run_cons]
    exact run_branches branches [] fs
  | _, _, _, .neg operand => by
    intro fs _
    obtain ⟨s, reads, rfl⟩ := run_parses operand (.neg :: fs) trivial
    exact ⟨_, reads, rfl⟩
  | _, _, _, .single operand => by
    intro fs bounds
    obtain ⟨s, reads, rfl⟩ := run_parses operand fs trivial
    refine ⟨_, reads, ?_⟩
    rw [settle_bounded bounds.1]
    exact ⟨_, _, rfl, joinConj_bounded bounds.2⟩
  | _, _, _, .conj (f := f) (g := second) left right => by
    intro fs bounds
    obtain ⟨s, reads, g, gs, rfl, joined⟩ := run_parses left fs bounds
    obtain ⟨s, more, rfl⟩ := run_parses right (.conj f :: fs) trivial
    rw [settle_bounded (by simp)] at more
    refine ⟨_, ?_, second, .conj f :: fs, rfl, rfl⟩
    rw [run_append, reads]
    simp only [Option.bind_some, run_cons, step, joined]
    exact more
  | _, _, _, .lone operand => by
    intro fs bounds
    obtain ⟨s, reads, g, gs, rfl, joined⟩ := run_parses operand fs ⟨bounds.1, bounds.2.1⟩
    refine ⟨_, reads, g, gs, rfl, ?_⟩
    rw [joined]
    exact joinDisj_bounded bounds.2.2
  | _, _, _, .disj (f := f) left right => by
    intro fs bounds
    obtain ⟨s, reads, g, gs, rfl, joined⟩ := run_parses left fs bounds
    obtain ⟨s, more, h, hs, rfl, completed⟩ :=
      run_parses right (.disj f :: fs) ⟨by simp, by simp⟩
    refine ⟨_, ?_, h, hs, rfl, ?_⟩
    · rw [run_append, reads]
      simp only [Option.bind_some, run_cons, step, joined]
      exact more
    · rw [completed]
      rfl

theorem run_branches : ∀ {ts : List (Lexeme α β)} {b : Branches α β}, ParsesBranches ts b →
    ∀ earlier fs, run (.when earlier, fs) ts = some (settle (.case (chain earlier b)) fs)
  | _, _, @ParsesBranches.last _ _ ts _ v condition => by
    intro earlier fs
    obtain ⟨s, reads, g, gs, rfl, joined⟩ :=
      run_parses condition (.branch earlier :: fs) (by simp [Bounds])
    rw [run_cons]
    change run (.operand, .branch earlier :: fs) (ts ++ _) = _
    rw [run_append, reads]
    simp only [Option.bind_some, run_cons, step, joined]
    rfl
  | _, _, @ParsesBranches.fallback _ _ ts _ v w condition => by
    intro earlier fs
    obtain ⟨s, reads, g, gs, rfl, joined⟩ :=
      run_parses condition (.branch earlier :: fs) (by simp [Bounds])
    rw [run_cons]
    change run (.operand, .branch earlier :: fs) (ts ++ _) = _
    rw [run_append, reads]
    simp only [Option.bind_some, run_cons, step, joined]
    rfl
  | _, _, @ParsesBranches.next _ _ ts us f _ v condition rest => by
    intro earlier fs
    obtain ⟨s, reads, g, gs, rfl, joined⟩ :=
      run_parses condition (.branch earlier :: fs) (by simp [Bounds])
    have more := run_branches rest ((f, v) :: earlier) fs
    obtain ⟨later, rfl⟩ := branches_start rest
    rw [run_cons]
    change run (.operand, .branch earlier :: fs) (ts ++ _) = _
    rw [run_append, reads]
    simp only [Option.bind_some, run_cons, step, joined]
    exact more

end

end Reader

theorem parses_unique {ts : List (Lexeme α β)} {f g : Formula α β}
    (hf : Parses .disjunction ts f) (hg : Parses .disjunction ts g) : f = g := by
  obtain ⟨s, reads, h, hs, rfl, joined⟩ := Reader.run_parses hf [] (by simp [Reader.Bounds])
  obtain ⟨t, same, k, ks, rfl, agreed⟩ := Reader.run_parses hg [] (by simp [Reader.Bounds])
  rw [reads] at same
  cases same
  rw [joined] at agreed
  exact (Prod.mk.inj agreed).1

/-- AND groups to the left. A chain on its right is regrouped, which leaves the truth alone. -/
theorem conj_regroups {ts : List (Lexeme α β)} {f : Formula α β} (left : Parses .conjunction ts f) :
    ∀ {us : List (Lexeme α β)} {g : Formula α β}, Parses .conjunction us g →
      ∃ h, Parses .conjunction (ts ++ .conj :: us) h ∧
        ∀ ν, h.truth ν = (f.truth ν).both (g.truth ν)
  | _, g, .single operand => ⟨.conj f g, .conj left operand, fun _ => rfl⟩
  | _, _, .conj (g := last) first second => by
    obtain ⟨h, parses, same⟩ := conj_regroups left first
    have longer := Parses.conj parses second
    rw [List.append_assoc] at longer
    refine ⟨.conj h last, longer, fun ν => ?_⟩
    rw [Formula.truth, same, Truth.both_assoc]
    rfl

end SqlAssembly
