import Admlink.Lib.JsonMembers

/-!
# Pieces pasted into a JSON text

From an object that was parsed out of a text put together from members the
members can be read off one after the other, also where a piece was pasted in
that nobody has looked at. A piece of at most four characters that stands where
a value should cannot swallow the member behind it, so it is a value. A piece
between quotes that decodes to itself has nothing in it to decode.
-/

namespace JsonText

variable {c x : Char} {s r t k w Y : List Char} {v : Value}

/-! ## Between quotes -/

/-- A character of a string ends before the next comma or quote, unless a
backslash stands right before the quote. -/
theorem character_split (h : character (w ++ x :: Y) = some (c, t)) (hw : w ≠ [])
    (hx : ¬ Inner x) :
    (∃ p w', w = p ++ w' ∧ t = w' ++ x :: Y ∧ (p = [c] ∧ Unescaped c ∨ 2 ≤ p.length)) ∨
      (w = ['\\'] ∧ x = '"' ∧ c = '"' ∧ t = Y) := by
  obtain ⟨y, w, rfl⟩ := List.exists_cons_of_ne_nil hw
  obtain ⟨p, hp, hread, hform⟩ := character_some h
  rcases hform with ⟨rfl, hc⟩ | ⟨q, rfl, hq, hin⟩
  · rw [List.cons_append, List.singleton_append, List.cons.injEq] at hp
    obtain ⟨rfl, rfl⟩ := hp
    exact .inl ⟨[y], w, rfl, rfl, .inl ⟨rfl, hc⟩⟩
  · rw [List.cons_append, List.cons_append, List.cons.injEq] at hp
    obtain ⟨rfl, hp⟩ := hp
    have hlen : 2 ≤ ('\\' :: q).length := by
      rw [List.length_cons]
      exact Nat.succ_le_succ (List.length_pos_of_ne_nil hq)
    rcases List.append_eq_append_iff.mp hp with ⟨a, rfl, ha⟩ | ⟨w', rfl, rfl⟩
    · cases a with
      | nil =>
          rw [List.nil_append] at ha
          rw [List.append_nil] at hlen
          exact .inl ⟨'\\' :: w, [], (List.append_nil _).symm, ha.symm, .inr hlen⟩
      | cons z a =>
          rw [List.cons_append, List.cons.injEq] at ha
          obtain ⟨rfl, rfl⟩ := ha
          rcases hin with hquote | hin
          · -- the escape is that of the quote itself
            have hnil := congrArg List.length hquote
            simp only [List.length_append, List.length_cons, List.length_nil] at hnil
            obtain rfl : w = [] := List.eq_nil_of_length_eq_zero (by omega)
            obtain rfl : a = [] := List.eq_nil_of_length_eq_zero (by omega)
            obtain rfl : x = '"' := (List.cons.inj hquote).1
            have hread' := hread []
            cases hread'
            exact .inr ⟨rfl, rfl, rfl, rfl⟩
          · exact absurd (hin x (by simp)) hx
    · exact .inl ⟨'\\' :: q, w', rfl, rfl, .inr hlen⟩

/-- A string whose text and decoded form agree is closed where it should be. -/
theorem chars_self : ∀ {fuel : Nat} {w z r : List Char},
    chars fuel (w ++ '"' :: ',' :: '"' :: Y) = some (z ++ w, r) →
      z = [] ∧ (∀ c ∈ w, Unescaped c) ∧ r = ',' :: '"' :: Y := by
  intro fuel
  induction fuel with
  | zero =>
      intro w z r h
      cases h
  | succ fuel ih =>
      intro w z r h
      rcases chars_cases h with ⟨hcs, hs⟩ | ⟨d, ds, -, t, hcs, -, hne, hd, hds⟩
      · obtain ⟨rfl, rfl⟩ := List.append_eq_nil_iff.mp hcs
        exact ⟨rfl, by simp, (List.cons.inj hs).2.symm⟩
      · have hw : w ≠ [] := by
          rintro rfl
          exact hne _ rfl
        rcases character_split hd hw (by simp [Inner]) with ⟨p, w', rfl, rfl, hp⟩ | ⟨rfl, -, -, rfl⟩
        · rw [← List.append_assoc] at hcs
          -- one character has been decoded; what is left of the text is decoded as `ds`
          have htail : ds = (z ++ p).tail ++ w' := by
            cases hzp : z ++ p with
            | nil =>
                obtain ⟨-, rfl⟩ := List.append_eq_nil_iff.mp hzp
                rcases hp with ⟨hp, -⟩ | hp <;> cases hp
            | cons y u =>
                rw [hzp, List.cons_append, List.cons.injEq] at hcs
                exact hcs.2.symm
          rw [htail] at hds
          obtain ⟨hnil, hall, hr⟩ := ih hds
          have hlen := congrArg List.length hnil
          rw [List.length_tail, List.length_append, List.length_nil] at hlen
          rcases hp with ⟨rfl, hplain⟩ | hp
          · rw [List.length_singleton] at hlen
            refine ⟨List.eq_nil_of_length_eq_zero (by omega), ?_, hr⟩
            simp only [List.singleton_append, List.mem_cons]
            rintro c (rfl | hc)
            · exact hplain
            · exact hall c hc
          · omega
        · -- the string goes on behind its quote and ends with a comma, not a backslash
          exfalso
          cases fuel with
          | zero => cases hds
          | succ fuel =>
              cases fuel with
              | zero => cases hds
              | succ fuel =>
                  cases hds
                  have hlast := congrArg List.getLast? hcs
                  simp at hlast

theorem string_self (h : string (w ++ '"' :: ',' :: '"' :: Y) = some (w, r)) :
    (∀ c ∈ w, Unescaped c) ∧ r = ',' :: '"' :: Y :=
  (chars_self (z := []) h).2

/-- A string that starts before a comma and a quote ends before them or at that
quote. -/
theorem chars_comma : ∀ {fuel : Nat} {w cs r : List Char},
    chars fuel (w ++ ',' :: '"' :: Y) = some (cs, r) →
      (∃ p w', w = p ++ w' ∧ p ≠ [] ∧ r = w' ++ ',' :: '"' :: Y) ∨ r = Y := by
  intro fuel
  induction fuel with
  | zero =>
      intro w cs r h
      cases h
  | succ fuel ih =>
      intro w cs r h
      cases w with
      | nil =>
          cases fuel with
          | zero => cases h
          | succ fuel =>
              cases h
              exact .inr rfl
      | cons y w =>
          rcases chars_cases h with ⟨rfl, hs⟩ | ⟨d, ds, -, t, rfl, -, -, hd, hds⟩
          · rw [List.cons_append, List.cons.injEq] at hs
            exact .inl ⟨[y], w, rfl, List.cons_ne_nil _ _, hs.2.symm⟩
          · rcases character_split hd (List.cons_ne_nil _ _) (by simp [Inner]) with
              ⟨p, w', hw, rfl, hp⟩ | ⟨-, hx, -, -⟩
            · have hpne : p ≠ [] := by
                rintro rfl
                rcases hp with ⟨hp, -⟩ | hp <;> cases hp
              rcases ih hds with ⟨q, w'', rfl, -, rfl⟩ | rfl
              · exact .inl ⟨p ++ q, w'', by rw [hw, List.append_assoc], by simp [hpne], rfl⟩
              · exact .inr rfl
            · cases hx

/-! ## In the place of a value -/

/-- The text of a member behind its comma: the piece in front of it must not
run into this. -/
structure Behind (C W : List Char) : Prop where
  comma : C = ',' :: '"' :: W
  named : ∃ k V, W = k ++ '"' :: ':' :: V ∧ (∀ c ∈ k, Unescaped c) ∧
    ∃ a k', k = a :: k' ∧ isWs a = false ∧ a ≠ ',' ∧ a ≠ ':' ∧ a ≠ ']' ∧ a ≠ '\x7d'

section Behind

variable {C W u : List Char} {fuel : Nat}

theorem skipWs_comma (u X : List Char) : skipWs (u ++ ',' :: X) = skipWs u ++ ',' :: X := by
  induction u with
  | nil => exact skipWs_cons (by decide)
  | cons c u ih =>
      cases hc : isWs c with
      | true => rw [List.cons_append, skipWs_cons_of_ws hc, skipWs_cons_of_ws hc, ih]
      | false => rw [List.cons_append, skipWs_cons hc, skipWs_cons hc, List.cons_append]

theorem length_skipWs_le (s : List Char) : (skipWs s).length ≤ s.length :=
  (List.dropWhile_suffix isWs).length_le

theorem Behind.skip (hC : Behind C W) (u : List Char) : skipWs (u ++ C) = skipWs u ++ C := by
  rw [hC.comma]
  exact skipWs_comma u _

/-- After white space, what follows the next quote is no separator. -/
theorem Behind.not_separator (hC : Behind C W) {ws : List Char} (hws : ∀ x ∈ ws, isWs x = true)
    (hx : isWs x = false) (hsep : x = ',' ∨ x = ':' ∨ x = ']' ∨ x = '\x7d') : W ≠ ws ++ x :: t := by
  rintro rfl
  obtain ⟨k, V, hW, -, a, k', rfl, ha, hcomma, hcolon, hbracket, hbrace⟩ := hC.named
  have hhead : x = a := by
    have hskip := congrArg skipWs hW
    rw [skipWs_of_blank hws, skipWs_cons hx, List.cons_append, skipWs_cons ha,
      List.cons.injEq] at hskip
    exact hskip.1
  subst hhead
  rcases hsep with rfl | rfl | rfl | rfl <;> contradiction

theorem scalar_comma (h : scalar (u ++ ',' :: Y) = some (v, r)) :
    ∃ p u', u = p ++ u' ∧ p ≠ [] ∧ r = u' ++ ',' :: Y := by
  obtain ⟨p, hp, hne, hcomma, -⟩ := scalar_some h
  rcases List.append_eq_append_iff.mp hp with ⟨a, rfl, ha⟩ | ⟨u', rfl, rfl⟩
  · cases a with
    | nil =>
        rw [List.append_nil] at hne
        exact ⟨u, [], (List.append_nil _).symm, hne, ha.symm⟩
    | cons x a =>
        rw [List.cons_append, List.cons.injEq] at ha
        obtain ⟨rfl, -⟩ := ha
        exact absurd rfl (hcomma ',' (by simp))
  · exact ⟨p, u', rfl, hne, rfl⟩

/-- No value starts at the comma. -/
theorem Behind.no_case (hC : Behind C W) : ¬ ValueCase fuel C v r := by
  intro h
  rw [hC.comma] at h
  cases h with
  | scalar _ _ _ hs =>
      obtain ⟨p, u', hp, hne, -⟩ := scalar_comma (u := []) hs
      exact hne (List.append_eq_nil_iff.mp hp.symm).1

theorem Behind.no_value (hC : Behind C W) : value fuel C ≠ some (v, r) := by
  intro h
  cases fuel with
  | zero => cases h
  | succ fuel =>
      obtain ⟨ws, u, hs, hws, hself, hcase⟩ := value_case h
      have hskip := congrArg skipWs hs
      rw [hC.comma, skipWs_cons (by decide), skipWs_of_blank hws, hself, ← hC.comma] at hskip
      subst hskip
      exact hC.no_case hcase

/-- The member behind the comma is no element. -/
theorem Behind.no_element (hC : Behind C W) {vs : List Value} :
    elements fuel ('"' :: W) ≠ some (vs, r) := by
  intro h
  obtain ⟨k, V, rfl, hk, -⟩ := hC.named
  cases fuel with
  | zero => cases h
  | succ fuel =>
      obtain ⟨v, ws, t, hv, hws, hmore⟩ := elements_cases h
      cases fuel with
      | zero => cases hv
      | succ fuel =>
          rw [value_quote] at hv
          simp only [string_of_unescaped hk, Option.map_some, Option.some.injEq,
            Prod.mk.injEq] at hv
          obtain ⟨-, hrest⟩ := hv
          have hskip := congrArg skipWs hrest
          rw [skipWs_of_blank hws, skipWs_cons (by decide)] at hskip
          rcases hmore with ⟨u, vs', rfl, -, -⟩ | ⟨rfl, -⟩ <;>
          · rw [skipWs_cons (by decide)] at hskip
            cases hskip

theorem exists_of_length_le {p : List Char} (h : u ++ C = p ++ r) (hlen : C.length ≤ r.length) :
    ∃ u', u = p ++ u' ∧ r = u' ++ C := by
  rcases List.append_eq_append_iff.mp h with ⟨a, rfl, ha⟩ | ⟨u', rfl, rfl⟩
  · have hsum := congrArg List.length ha
    rw [List.length_append] at hsum
    obtain rfl : a = [] := List.eq_nil_of_length_eq_zero (by omega)
    exact ⟨[], by simp, ha.symm⟩
  · exact ⟨u', rfl, rfl⟩

theorem Behind.string (hC : Behind C W) {cs : List Char} (h : string (u ++ C) = some (cs, r)) :
    (∃ p u', u = p ++ u' ∧ p ≠ [] ∧ r = u' ++ C) ∨ r = W := by
  rw [hC.comma] at h ⊢
  exact chars_comma h

/-- In three characters there is no room for a name, a colon and a value. -/
theorem Behind.no_members (hC : Behind C W) {ms : List (List Char × Value)} (hu : u.length ≤ 3) :
    members fuel (u ++ C) ≠ some (ms, r) := by
  intro h
  cases fuel with
  | zero => cases h
  | succ fuel =>
      obtain ⟨k, t, v, ws', t', hk, hv, -⟩ := members_cases h
      obtain ⟨ws, p, ws'', hs, hws, hws'', hp, hread⟩ := name_some hk
      have hskip := congrArg skipWs hs
      rw [hC.skip, skipWs_of_blank hws, skipWs_cons (by decide)] at hskip
      have hlen := length_skipWs_le u
      cases hu' : skipWs u with
      | nil =>
          rw [hu', hC.comma, List.nil_append] at hskip
          cases hskip
      | cons y u' =>
          rw [hu', List.cons_append, List.cons.injEq] at hskip
          obtain ⟨rfl, hstring⟩ := hskip
          rw [hu', List.length_cons] at hlen
          have hname := hread (ws'' ++ ':' :: t)
          rw [← hstring] at hname
          rcases hC.string hname with ⟨q, u₂, rfl, hq, heq⟩ | hW
          · -- one character is left for the colon, so no value comes before the comma
            have hqlen := List.length_pos_of_ne_nil hq
            rw [List.length_append] at hlen
            have hcolon := congrArg skipWs heq
            rw [skipWs_of_blank hws'', skipWs_cons (by decide), hC.skip] at hcolon
            cases hu₂ : skipWs u₂ with
            | nil =>
                rw [hu₂, hC.comma, List.nil_append] at hcolon
                cases hcolon
            | cons y u₃ =>
                have hlen₂ := length_skipWs_le u₂
                rw [hu₂, List.length_cons] at hlen₂
                obtain rfl : u₃ = [] := List.eq_nil_of_length_eq_zero (by omega)
                rw [hu₂, List.cons_append, List.cons.injEq, List.nil_append] at hcolon
                rw [hcolon.2] at hv
                exact hC.no_value hv
          · exact hC.not_separator hws'' (by decide) (by simp) hW.symm

theorem Behind.keeps (hC : Behind C W) (fuel : Nat) :
    (∀ u v r, u.length ≤ 4 → value fuel (u ++ C) = some (v, r) → C.length ≤ r.length ∨ r = W) ∧
    ∀ u vs r, u.length ≤ 4 → elements fuel (u ++ C) = some (vs, r) → C.length ≤ r.length := by
  induction fuel with
  | zero => exact ⟨nofun, nofun⟩
  | succ fuel ih =>
      obtain ⟨hvalue, helements⟩ := ih
      refine ⟨fun u v r hu h => ?_, fun u vs r hu h => ?_⟩
      · obtain ⟨ws, s, hs, hws, hself, hcase⟩ := value_case h
        have hskip := congrArg skipWs hs
        rw [hC.skip, skipWs_of_blank hws, hself] at hskip
        have hlen := length_skipWs_le u
        cases hu' : skipWs u with
        | nil =>
            rw [hu', List.nil_append] at hskip
            rw [← hskip] at hcase
            exact absurd hcase hC.no_case
        | cons y u' =>
            rw [hu', List.length_cons] at hlen
            rw [hu', List.cons_append] at hskip
            -- what is left after an opening bracket and white space
            have hinner : ∀ {d : Char} {t : List Char}, skipWs (u' ++ C) = d :: t →
                ∃ u₂, u₂.length ≤ u'.length ∧ d :: t = u₂ ++ C := fun hd =>
              ⟨skipWs u', length_skipWs_le u', by rw [← hd, hC.skip]⟩
            have hclosed : ∀ {d : Char}, d ≠ ',' → skipWs (u' ++ C) = d :: r →
                C.length ≤ r.length := by
              intro d hd hskip'
              rw [hC.skip] at hskip'
              cases hu₂ : skipWs u' with
              | nil =>
                  rw [hu₂, List.nil_append, hC.comma, List.cons.injEq] at hskip'
                  exact absurd hskip'.1.symm hd
              | cons x u₂ =>
                  rw [hu₂, List.cons_append, List.cons.injEq] at hskip'
                  rw [← hskip'.2, List.length_append]
                  omega
            rw [← hskip] at hcase
            cases hcase with
            | string hd =>
                rcases hC.string hd with ⟨p, u₂, -, -, rfl⟩ | hr
                · exact .inl (by rw [List.length_append]; omega)
                · exact .inr hr
            | noElements hr => exact .inl (hclosed (by decide) hr)
            | array ht _ hvs =>
                obtain ⟨u₂, hlen₂, hin⟩ := hinner ht
                rw [hin] at hvs
                exact .inl (helements _ _ _ (by omega) hvs)
            | noMembers hr => exact .inl (hclosed (by decide) hr)
            | object ht _ hms =>
                obtain ⟨u₂, hlen₂, hin⟩ := hinner ht
                rw [hin] at hms
                exact absurd hms (hC.no_members (by omega))
            | scalar _ _ _ hv =>
                rw [← List.cons_append, hC.comma] at hv
                obtain ⟨p, u₂, -, -, rfl⟩ := scalar_comma hv
                rw [hC.comma]
                exact .inl (by rw [List.length_append]; omega)
      · obtain ⟨v, ws, t, hv, hws, hmore⟩ := elements_cases h
        obtain ⟨p, hp, hpne, -⟩ := (splits fuel).1 _ _ _ hv
        rcases hvalue u v _ hu hv with hlen | hW
        · obtain ⟨u', rfl, hrest⟩ := exists_of_length_le hp hlen
          have hskip := congrArg skipWs hrest
          rw [skipWs_of_blank hws, hC.skip] at hskip
          have hlen' := length_skipWs_le u'
          rw [List.length_append] at hu
          rcases hmore with ⟨q, vs', rfl, hvs, -⟩ | ⟨rfl, -⟩
          · rw [skipWs_cons (by decide)] at hskip
            cases hu' : skipWs u' with
            | nil =>
                -- the comma is that of the member behind
                rw [hu', List.nil_append, hC.comma, List.cons.injEq] at hskip
                rw [hskip.2] at hvs
                exact absurd hvs hC.no_element
            | cons y u₂ =>
                rw [hu', List.cons_append, List.cons.injEq] at hskip
                rw [hu', List.length_cons] at hlen'
                rw [hskip.2] at hvs
                exact helements _ _ _ (by omega) hvs
          · rw [skipWs_cons (by decide)] at hskip
            cases hu' : skipWs u' with
            | nil =>
                rw [hu', List.nil_append, hC.comma] at hskip
                cases hskip
            | cons y u₂ =>
                rw [hu', List.cons_append, List.cons.injEq] at hskip
                rw [hskip.2, List.length_append]
                omega
        · rcases hmore with ⟨q, vs', rfl, -, -⟩ | ⟨rfl, -⟩
          · exact absurd hW.symm (hC.not_separator hws (by decide) (by simp))
          · exact absurd hW.symm (hC.not_separator hws (by decide) (by simp))

/-! ## Member by member -/

variable {ms : List (List Char × Value)}

/-- A pasted value is a value, and the member behind it is still there. -/
theorem Behind.pasted (hC : Behind C W) (hk : ∀ c ∈ k, Unescaped c) (hu : u.length ≤ 4)
    (h : members fuel (memberText (k, u) ++ C) = some (ms, r)) (hr : skipWs r = []) :
    ∃ v ms' fuel', parse u = some v ∧ ms = (k, v) :: ms' ∧
      members fuel' ('"' :: W) = some (ms', r) := by
  cases fuel with
  | zero => cases h
  | succ fuel =>
      obtain ⟨k', t', v, ws, t, hname, hv, hws, hmore⟩ := members_cases h
      rw [name_memberText hk] at hname
      cases hname
      obtain ⟨p, hp, hpne, hread⟩ := (splits fuel).1 _ _ _ hv
      rcases (hC.keeps fuel).1 u v _ hu hv with hlen | hW
      · obtain ⟨u', rfl, hrest⟩ := exists_of_length_le hp hlen
        have hplen := List.length_pos_of_ne_nil hpne
        have hlen' := length_skipWs_le u'
        have hskip := congrArg skipWs hrest
        rw [skipWs_of_blank hws, hC.skip] at hskip
        rw [List.length_append] at hu
        rcases hmore with ⟨q, ms', rfl, hms, rfl⟩ | ⟨rfl, rfl⟩
        · rw [skipWs_cons (by decide)] at hskip
          cases hu' : skipWs u' with
          | nil =>
              rw [hu', List.nil_append, hC.comma, List.cons.injEq] at hskip
              rw [hskip.2] at hms
              have hparse := parse_iff.mpr ⟨p, u', rfl, skipWs_eq_nil.mp hu', hread⟩
              exact ⟨v, ms', fuel, hparse, rfl, hms⟩
          | cons y u₂ =>
              rw [hu', List.cons_append, List.cons.injEq] at hskip
              rw [hu', List.length_cons] at hlen'
              rw [hskip.2] at hms
              exact absurd hms (hC.no_members (by omega))
        · rw [skipWs_cons (by decide)] at hskip
          cases hu' : skipWs u' with
          | nil =>
              rw [hu', List.nil_append, hC.comma] at hskip
              cases hskip
          | cons y u₂ =>
              -- the object is closed too early, so something is left
              rw [hu', List.cons_append, List.cons.injEq] at hskip
              rw [hskip.2, hC.skip, hC.comma] at hr
              exact absurd (List.append_eq_nil_iff.mp hr).2 (List.cons_ne_nil _ _)
      · rcases hmore with ⟨q, ms', rfl, -, -⟩ | ⟨rfl, -⟩
        · exact absurd hW.symm (hC.not_separator hws (by decide) (by simp))
        · exact absurd hW.symm (hC.not_separator hws (by decide) (by simp))

variable {m : List Char × List Char} {mts : List (List Char × List Char)}

/-- The same where the member behind is written like the others. -/
theorem members_of_pasted {k₂ s₂ : List Char} (hk : ∀ c ∈ k, Unescaped c)
    (hk₂ : ∀ c ∈ k₂, Unescaped c)
    (hhead : ∃ a k', k₂ = a :: k' ∧ isWs a = false ∧ a ≠ ',' ∧ a ≠ ':' ∧ a ≠ ']' ∧ a ≠ '\x7d')
    (hu : u.length ≤ 4)
    (h : members fuel (membersText ((k, u) :: (k₂, s₂) :: m :: mts)) = some (ms, r))
    (hr : skipWs r = []) :
    ∃ v ms' fuel', parse u = some v ∧ ms = (k, v) :: ms' ∧
      members fuel' (membersText ((k₂, s₂) :: m :: mts)) = some (ms', r) := by
  obtain ⟨W, hW⟩ := membersText_head (k₂, s₂) (m :: mts)
  have hnamed : W = k₂ ++ '"' :: ':' :: (s₂ ++ ',' :: membersText (m :: mts)) := by
    rw [membersText_cons] at hW
    simp only [memberText, List.cons_append, List.append_assoc, List.cons.injEq, true_and] at hW
    exact hW.symm
  have hC : Behind (',' :: '"' :: W) W := ⟨rfl, _, _, hnamed, hk₂, hhead⟩
  rw [membersText_cons, hW] at h
  rw [hW]
  exact hC.pasted hk hu h hr

/-- A member whose value text is a value. -/
theorem members_of_parse (hk : ∀ c ∈ k, Unescaped c) (hs : parse s = some v)
    (h : members fuel (membersText ((k, s) :: m :: mts)) = some (ms, r)) :
    ∃ ms' fuel', ms = (k, v) :: ms' ∧ members fuel' (membersText (m :: mts)) = some (ms', r) := by
  rw [membersText_cons] at h
  generalize membersText (m :: mts) = Y at h ⊢
  cases fuel with
  | zero => cases h
  | succ fuel =>
      obtain ⟨k', t', v', ws, t, hname, hv, hws, hmore⟩ := members_cases h
      rw [name_memberText hk] at hname
      cases hname
      obtain ⟨p, ws', rfl, hws', hread⟩ := parse_iff.mp hs
      obtain ⟨p', hp', -, hread'⟩ := (splits fuel).1 _ _ _ hv
      rw [List.append_assoc] at hp'
      have hfollows : Follows (ws' ++ ',' :: Y) := follows_of_blank hws' (follows_cons.mpr rfl)
      have hunique : ∀ {x : Char} {t : List Char}, isNumChar x = false → isWs x = false →
          p ++ (ws' ++ ',' :: Y) = p' ++ (ws ++ x :: t) → v = v' ∧ x = ',' ∧ t = Y := by
        intro x t hx hx' heq
        obtain ⟨rfl, hrest⟩ := hread.unique hread' hfollows
          (follows_of_blank hws (follows_cons.mpr hx)) heq
        have hskip := congrArg skipWs hrest
        rw [skipWs_of_blank hws', skipWs_of_blank hws, skipWs_cons (by decide), skipWs_cons hx',
          List.cons.injEq] at hskip
        exact ⟨rfl, hskip.1.symm, hskip.2.symm⟩
      rcases hmore with ⟨q, ms', rfl, hms, rfl⟩ | ⟨rfl, rfl⟩
      · obtain ⟨rfl, -, rfl⟩ := hunique (by decide) (by decide) hp'
        exact ⟨ms', fuel, rfl, hms⟩
      · obtain ⟨-, hx, -⟩ := hunique (by decide) (by decide) hp'
        cases hx

/-- A pasted string that decodes to itself, and the member behind it. -/
theorem members_of_quoted (hk : ∀ c ∈ k, Unescaped c)
    (h : members fuel (membersText ((k, quoted w) :: m :: mts)) = some (ms, r)) :
    ∃ d ms' fuel', ms = (k, .string d) :: ms' ∧
      (d = w → (∀ c ∈ w, Unescaped c) ∧
        members fuel' (membersText (m :: mts)) = some (ms', r)) := by
  obtain ⟨Y, hY⟩ := membersText_head m mts
  rw [membersText_cons, hY] at h
  rw [hY]
  cases fuel with
  | zero => cases h
  | succ fuel =>
      obtain ⟨k', t', v, ws, t, hname, hv, hws, hmore⟩ := members_cases h
      rw [name_memberText hk] at hname
      cases hname
      cases fuel with
      | zero => cases hv
      | succ fuel =>
          have htext : quoted w ++ ',' :: '"' :: Y = '"' :: (w ++ '"' :: ',' :: '"' :: Y) := by
            simp [quoted]
          rw [htext, value_quote] at hv
          obtain ⟨⟨d, t'⟩, hd, heq⟩ := Option.map_eq_some_iff.mp hv
          cases heq
          -- a string that decodes to itself is closed by its own quote
          have hself : d = w → (∀ c ∈ w, Unescaped c) ∧ skipWs t = ',' :: '"' :: Y := by
            rintro rfl
            obtain ⟨hw, hrest⟩ := string_self hd
            refine ⟨hw, ?_⟩
            have hskip := congrArg skipWs hrest
            rwa [skipWs_of_blank hws, skipWs_cons (by decide)] at hskip
          rcases hmore with ⟨q, ms', rfl, hms, rfl⟩ | ⟨rfl, rfl⟩
          · refine ⟨d, ms', fuel + 1, rfl, fun hdw => ?_⟩
            obtain ⟨hw, hskip⟩ := hself hdw
            rw [skipWs_cons (by decide), List.cons.injEq] at hskip
            rw [hskip.2] at hms
            exact ⟨hw, hms⟩
          · refine ⟨d, [], fuel, rfl, fun hdw => ?_⟩
            obtain ⟨-, hskip⟩ := hself hdw
            rw [skipWs_cons (by decide)] at hskip
            cases hskip

theorem members_of_parse_object
    (h : parse (objectText (m :: mts)) = some (.object ms)) :
    ∃ fuel r, members fuel (membersText (m :: mts)) = some (ms, r) ∧ skipWs r = [] := by
  obtain ⟨⟨v, r⟩, hv, hrest⟩ := Option.bind_eq_some_iff.mp h
  obtain ⟨u, hu⟩ := membersText_head m mts
  by_cases hr : skipWs r = []
  · simp only [if_pos hr, Option.some.injEq] at hrest
    subst hrest
    rw [objectText, List.length_cons, Nat.mul_succ, value_brace, hu] at hv
    simp only [skipWs_cons (show isWs '"' = false by decide)] at hv
    obtain ⟨⟨ms', r'⟩, hms, heq⟩ := Option.map_eq_some_iff.mp hv
    cases heq
    rw [← hu] at hms
    exact ⟨_, _, hms, hr⟩
  · simp only [if_neg hr] at hrest
    cases hrest

end Behind

end JsonText
