import CodeAtlas.Proofs.Extraction.Files
import Mathlib.Tactic.Tauto

/-!
# The clients of a run

A command line is looked up part by part, with numbers compared by their size.
No command line gets a second client, a client keeps its command line, and what
is done with one session leaves the others where they are.
-/

namespace CodeAtlas

/-- A value, with a number of any kind as the integer that it equals. -/
def Value.bySize (v : Value) : Value :=
  match v.integer? with
  | some n => .integer n
  | none => v

theorem Value.same_iff {a b : Value} : a.same b = true ↔ a.bySize = b.bySize := by
  unfold same bySize
  cases ha : a.integer? with
  | none =>
    cases hb : b.integer? with
    | none => simp
    | some n =>
      have hne : a ≠ .integer n := by
        rintro rfl
        cases ha
      simpa using hne
  | some m =>
    cases hb : b.integer? with
    | none =>
      have hne : Value.integer m ≠ b := by
        rintro rfl
        cases hb
      simpa using hne
    | some n => simp

theorem sameArgv_iff {a b : List Value} :
    sameArgv a b = true ↔ a.map Value.bySize = b.map Value.bySize := by
  induction a generalizing b with
  | nil => cases b <;> simp [sameArgv]
  | cons v rest ih =>
    cases b with
    | nil => simp [sameArgv]
    | cons w others =>
      have htail := ih (b := others)
      simp only [sameArgv, Bool.and_eq_true, beq_iff_eq] at htail
      simp only [sameArgv, List.length_cons, List.zip_cons_cons, List.all_cons, Bool.and_eq_true,
        beq_iff_eq, Nat.add_right_cancel_iff, Value.same_iff, List.map_cons, List.cons.injEq,
        ← htail]
      tauto

theorem sameArgv_refl (a : List Value) : sameArgv a a = true := sameArgv_iff.mpr rfl

theorem sameArgv_comm (a b : List Value) : sameArgv a b = sameArgv b a := by
  rw [Bool.eq_iff_iff, sameArgv_iff, sameArgv_iff, eq_comm]

theorem sameArgv_congr {a b : List Value} (h : sameArgv a b = true) (c : List Value) :
    sameArgv c a = sameArgv c b := by
  rw [Bool.eq_iff_iff, sameArgv_iff, sameArgv_iff, sameArgv_iff.mp h]

namespace Extraction

open Server

/-- No command line has two clients. -/
def Distinct (x : Extraction) : Prop :=
  (x.clients.map Client.argv).Pairwise fun a b => sameArgv a b = false

theorem knows_congr (x : Extraction) {a b : List Value} (h : sameArgv a b = true) :
    x.knows a = x.knows b := by
  simp only [knows, sameArgv_congr h]

theorem session?_congr (x : Extraction) {a b : List Value} (h : sameArgv a b = true) :
    x.session? a = x.session? b := by
  simp only [session?, sameArgv_congr h]

theorem knows_of_session? {x : Extraction} {argv : List Value} {s : Session}
    (h : x.session? argv = some s) : x.knows argv = true := by
  obtain ⟨c, hc, -⟩ := Option.bind_eq_some_iff.mp h
  have hsame : sameArgv c.argv argv = true :=
    List.find?_some (p := fun c : Client => sameArgv c.argv argv) hc
  exact List.any_eq_true.mpr ⟨c, List.mem_of_find?_eq_some hc, hsame⟩

theorem session?_eq_none {x : Extraction} {argv : List Value} (h : x.knows argv = false) :
    x.session? argv = none := by
  cases hs : x.session? argv with
  | none => rfl
  | some s =>
    rw [knows_of_session? hs] at h
    cases h

/-- What is done with one session leaves each client its command line, and its session if it has
one. -/
theorem clients_perform {α : Type} (x : Extraction) (s : Session) (op : Session → Session × α) :
    ∃ g : Client → Client, (∀ c, (g c).argv = c.argv ∧ (g c).session.isSome = c.session.isSome) ∧
      (x.perform s op).1.clients = x.clients.map g := by
  have hsettle : ∀ c : Client, (settleClient c).1.argv = c.argv ∧
      (settleClient c).1.session.isSome = c.session.isSome := by
    rintro ⟨argv, _ | t⟩ <;> exact ⟨rfl, rfl⟩
  unfold perform settleOthers
  dsimp only
  split
  · exact ⟨id, fun c => ⟨rfl, rfl⟩, (List.map_id _).symm⟩
  · refine ⟨_, fun c => ?_, List.map_map⟩
    dsimp only [Function.comp_apply]
    split
    · exact ⟨rfl, rfl⟩
    · exact hsettle c

theorem find?_map_client {g : Client → Client} (hg : ∀ c, (g c).argv = c.argv)
    (clients : List Client) (argv : List Value) :
    (clients.map g).find? (fun c => sameArgv c.argv argv) =
      (clients.find? fun c => sameArgv c.argv argv).map g := by
  rw [List.find?_map]
  simp only [Function.comp_def, hg]

theorem argvs_perform {α : Type} (x : Extraction) (s : Session) (op : Session → Session × α) :
    (x.perform s op).1.clients.map Client.argv = x.clients.map Client.argv := by
  obtain ⟨g, hg, hclients⟩ := clients_perform x s op
  rw [hclients, List.map_map]
  exact List.map_congr_left fun c _ => (hg c).1

theorem isSome_session?_perform {α : Type} (x : Extraction) (s : Session)
    (op : Session → Session × α) (argv : List Value) :
    ((x.perform s op).1.session? argv).isSome = (x.session? argv).isSome := by
  obtain ⟨g, hg, hclients⟩ := clients_perform x s op
  rw [session?, session?, hclients, find?_map_client fun c => (hg c).1]
  cases x.clients.find? fun c => sameArgv c.argv argv with
  | none => rfl
  | some c => exact (hg c).2

theorem argvs_setSession (x : Extraction) (argv : List Value) (s : Option Session) :
    (x.setSession argv s).clients.map Client.argv =
      if x.knows argv then x.clients.map Client.argv else x.clients.map Client.argv ++ [argv] := by
  unfold setSession knows
  split
  · rw [List.map_map]
    refine List.map_congr_left fun c _ => ?_
    dsimp only [Function.comp_apply]
    split <;> rfl
  · exact List.map_append ..

theorem session?_setSession (x : Extraction) (argv other : List Value) (s : Option Session) :
    (x.setSession argv s).session? other =
      if sameArgv argv other then s else x.session? other := by
  have hargv : ∀ c : Client,
      (if sameArgv c.argv argv then ⟨c.argv, s⟩ else c : Client).argv = c.argv := by
    intro c
    split <;> rfl
  unfold setSession session?
  split
  next hknown =>
    rw [find?_map_client hargv]
    cases hfind : x.clients.find? (fun c => sameArgv c.argv other) with
    | none =>
      have hunknown : x.knows other = false := by
        rw [knows, List.any_eq_false]
        exact List.find?_eq_none.mp hfind
      have hdiffer : sameArgv argv other = false := by
        by_contra hsame
        rw [← knows_congr x (Bool.not_eq_false _ ▸ hsame), knows, hknown] at hunknown
        cases hunknown
      rw [hdiffer]
      rfl
    | some c =>
      have hsame : sameArgv c.argv other = true :=
        List.find?_some (p := fun c : Client => sameArgv c.argv other) hfind
      rw [← sameArgv_congr hsame, sameArgv_comm]
      dsimp only [Option.map_some, Option.bind_some]
      split <;> rfl
  next hnew =>
    rw [List.find?_append]
    cases hsame : sameArgv argv other with
    | true =>
      have hnone : x.clients.find? (fun c => sameArgv c.argv other) = none := by
        rw [List.find?_eq_none]
        intro c hc
        rw [← sameArgv_congr hsame]
        exact fun h => hnew (List.any_eq_true.mpr ⟨c, hc, h⟩)
      simp [hnone, hsame]
    | false =>
      rw [List.find?_cons_of_neg (by simp [hsame]), List.find?_nil, Option.or_none]
      rfl

theorem knows_eq_any (x : Extraction) (argv : List Value) :
    x.knows argv = (x.clients.map Client.argv).any fun a => sameArgv a argv := by
  rw [List.any_map]
  rfl

theorem knows_perform {α : Type} (x : Extraction) (s : Session) (op : Session → Session × α)
    (argv : List Value) : (x.perform s op).1.knows argv = x.knows argv := by
  rw [knows_eq_any, argvs_perform, ← knows_eq_any]

theorem knows_setSession (x : Extraction) (argv other : List Value) (s : Option Session) :
    (x.setSession argv s).knows other = (sameArgv argv other || x.knows other) := by
  rw [knows_eq_any, argvs_setSession]
  cases hknown : x.knows argv with
  | true =>
    rw [if_pos rfl, ← knows_eq_any]
    cases hsame : sameArgv argv other with
    | true => rw [← knows_congr x hsame, hknown, Bool.true_or]
    | false => rw [Bool.false_or]
  | false =>
    rw [if_neg Bool.false_ne_true, List.any_append, ← knows_eq_any, Bool.or_comm]
    simp

theorem Distinct.perform {x : Extraction} (h : x.Distinct) {α : Type} (s : Session)
    (op : Session → Session × α) : (x.perform s op).1.Distinct := by
  rw [Distinct, argvs_perform]
  exact h

theorem Distinct.setSession {x : Extraction} (h : x.Distinct) (argv : List Value)
    (s : Option Session) : (x.setSession argv s).Distinct := by
  rw [Distinct, argvs_setSession]
  split
  · exact h
  next hnew =>
    rw [List.pairwise_append]
    refine ⟨h, List.pairwise_singleton _ _, fun a ha b hb => ?_⟩
    rw [List.mem_singleton] at hb
    subst hb
    rw [Bool.not_eq_true, knows_eq_any, List.any_eq_false] at hnew
    exact Bool.not_eq_true _ ▸ hnew a ha

/-- A session that has been used is put back, and nothing else changes hands. -/
theorem isSome_session?_putBack {α : Type} {x : Extraction} {argv : List Value} {s : Session}
    (h : x.session? argv = some s) (op : Session → Session × α) (t : Session)
    (other : List Value) :
    (((x.perform s op).1.setSession argv (some t)).session? other).isSome =
      (x.session? other).isSome := by
  rw [session?_setSession]
  split
  next hsame => rw [← session?_congr x hsame, h]; rfl
  next => exact isSome_session?_perform x s op other

theorem knows_putBack {α : Type} {x : Extraction} {argv : List Value} {s : Session}
    (h : x.session? argv = some s) (op : Session → Session × α) (t : Session)
    (other : List Value) :
    ((x.perform s op).1.setSession argv (some t)).knows other = x.knows other := by
  rw [knows_setSession, knows_perform]
  cases hsame : sameArgv argv other with
  | true => rw [← knows_congr x hsame, knows_of_session? h, Bool.true_or]
  | false => rw [Bool.false_or]

/-- A launch takes the server in, finds it unavailable, or ends the run. -/
theorem launch_cases (x : Extraction) (language : String) (argv : List Value) (script : Script) :
    ∃ s z, s = x.newSession language argv script ∧ z = (x.perform s Session.start).1 ∧
      ((s.start.2 = none ∧
          x.launch language argv script = (z.setSession argv (some s.start.1), .ok (some argv))) ∨
        x.launch language argv script = (z.setSession argv none, .ok none) ∨
        ∃ c, x.launch language argv script = (z, .error c)) := by
  refine ⟨_, _, rfl, rfl, ?_⟩
  have hstart : (x.perform (x.newSession language argv script) Session.start).2 =
      (x.newSession language argv script).start := snd_perform x _ _
  unfold launch
  rw [← newSession, ← hstart]
  dsimp only
  generalize x.perform (x.newSession language argv script) Session.start = performed
  obtain ⟨z, s, f⟩ := performed
  cases f with
  | none => exact .inl ⟨rfl, rfl⟩
  | some f =>
    right
    cases f with
    | link e =>
      dsimp only
      split
      · exact .inl rfl
      · exact .inr ⟨_, rfl⟩
    | noRecord | unbounded | longNumber | impossiblePath | line => exact .inr ⟨_, rfl⟩

/-- A server that starts is asked by the session of its start. -/
theorem Launches.exists_session {x : Extraction} {language : String} {config : ServerConfig}
    {script : Script} (h : x.Launches language config script)
    (hstart : (x.newSession language config.argv script).start.2 = none) :
    ∃ z, x.clientFor language = (z, .ok (some config.argv)) ∧
      z.session? config.argv = some (x.newSession language config.argv script).start.1 := by
  have hsnd := snd_launch x language config.argv script
  rw [hstart] at hsnd
  rw [h.clientFor]
  obtain ⟨s, z, rfl, rfl, hcases⟩ := launch_cases x language config.argv script
  rcases hcases with ⟨-, hlaunch⟩ | hlaunch | ⟨c, hlaunch⟩
  · refine ⟨_, hlaunch, ?_⟩
    rw [session?_setSession, sameArgv_refl, if_pos rfl]
  · rw [hlaunch] at hsnd
    cases hsnd
  · rw [hlaunch] at hsnd
    cases hsnd

end Extraction

end CodeAtlas
