import Admlink.Config
import Admlink.Lib.JsonPasted
import Admlink.Lib.Utf8
import Admlink.Responses

/-!
# The events as JSON

An event is put together from fourteen members. Of what is not fixed in it the
id goes in twice, once unquoted, and the device id once; nothing is escaped. So
the event is JSON with the members it should have just when the four characters
of the id are a JSON value, and both they and the device id can stand between
quotes as they are.
-/

namespace Admlink

open Program World JsonText Utf8

/-! ## Members -/

/-- The members of an event: names and the texts of their values. -/
def eventMembers (act_id act_trg act_para devid date msg : List Char) :
    List (List Char × List Char) :=
  [("type".toList, quoted "event".toList), ("ver".toList, quoted "2.00".toList),
   ("prdct".toList, quoted "AP".toList), ("act_id".toList, act_id), ("act_sts".toList, ['0']),
   ("act_trg".toList, act_trg), ("act_para".toList, quoted act_para), ("evt_id".toList, ['1']),
   ("agt_name".toList, quoted "maomaoag".toList), ("agt_ver".toList, quoted "9.9.9".toList),
   ("ms_ver".toList, quoted "9.9.9".toList), ("dev_id".toList, quoted devid),
   ("date".toList, quoted date), ("msg".toList, quoted msg)]

def eventNames : List (List Char) := (eventMembers [] [] [] [] [] []).map (·.1)

/-- The value of the first member of this name. -/
def member (name : List Char) (ms : List (List Char × Value)) : Option Value :=
  (ms.find? (·.1 = name)).map (·.2)

theorem member_self (name : List Char) (v : Value) (ms : List (List Char × Value)) :
    member name ((name, v) :: ms) = some v := by
  simp [member]

theorem member_cons {name name' : List Char} (h : name' ≠ name) (v : Value)
    (ms : List (List Char × Value)) : member name ((name', v) :: ms) = member name ms := by
  simp [member, h]

/-- The text is a JSON object with the members of an event; `dev_id` and
`act_para` decode to these strings. -/
def IsEvent (text devid act_para : Bytes) : Prop :=
  ∃ cs ms d p, utf8 cs = text ∧ parse cs = some (.object ms) ∧ ms.map (·.1) = eventNames ∧
    member "dev_id".toList ms = some (.string d) ∧ utf8 d = devid ∧
    member "act_para".toList ms = some (.string p) ∧ utf8 p = act_para

/-- The bytes are a JSON text by themselves. -/
def IsJson (s : Bytes) : Prop := ∃ cs v, utf8 cs = s ∧ parse cs = some v

/-- The bytes are UTF-8 without quotes, backslashes and control characters. -/
def Quotable (s : Bytes) : Prop := ∃ cs, utf8 cs = s ∧ ∀ c ∈ cs, Unescaped c

/-! ## One text for all events -/

def beforeTrg (act_id : List Char) : List Char :=
  '\x7b' :: (memberText ("type".toList, quoted "event".toList) ++ ',' ::
    (memberText ("ver".toList, quoted "2.00".toList) ++ ',' ::
    (memberText ("prdct".toList, quoted "AP".toList) ++ ',' ::
    (memberText ("act_id".toList, act_id) ++ ',' ::
    (memberText ("act_sts".toList, ['0']) ++ ',' :: '"' :: ("act_trg".toList ++ ['"', ':']))))))

def beforePara : List Char := '"' :: ("act_para".toList ++ ['"', ':', '"'])

def beforeDev : List Char :=
  ',' :: (memberText ("evt_id".toList, ['1']) ++ ',' ::
    (memberText ("agt_name".toList, quoted "maomaoag".toList) ++ ',' ::
    (memberText ("agt_ver".toList, quoted "9.9.9".toList) ++ ',' ::
    (memberText ("ms_ver".toList, quoted "9.9.9".toList) ++ ',' ::
      '"' :: ("dev_id".toList ++ ['"', ':', '"'])))))

def behindDev (date msg : List Char) : List Char :=
  ',' :: (memberText ("date".toList, quoted date) ++ ',' ::
    (memberText ("msg".toList, quoted msg) ++ ['\x7d']))

/-- An event with these bytes pasted in. -/
def pastedText (act_id : List Char) (act_trg act_para devid : Bytes) (date msg : List Char) :
    Bytes :=
  utf8 (beforeTrg act_id) ++ (act_trg ++ (String.utf8EncodeChar ',' ++ (utf8 beforePara ++
    (act_para ++ (String.utf8EncodeChar '"' ++ (utf8 beforeDev ++
    (devid ++ (String.utf8EncodeChar '"' ++ utf8 (behindDev date msg)))))))))

variable {act_id trg para dev date msg : List Char} {act_trg act_para devid : Bytes}

theorem objectText_eventMembers :
    objectText (eventMembers act_id trg para dev date msg) =
      beforeTrg act_id ++ (trg ++ ',' :: (beforePara ++ (para ++ '"' :: (beforeDev ++
        (dev ++ '"' :: behindDev date msg))))) := by
  simp only [objectText, eventMembers, membersText, memberText, quoted, beforeTrg, beforePara,
    beforeDev, behindDev, List.append_assoc, List.cons_append, List.nil_append]

/-- A pasted text that is UTF-8 had only UTF-8 pasted in. -/
theorem utf8_eq_pastedText {cs : List Char} :
    utf8 cs = pastedText act_id act_trg act_para devid date msg ↔
      ∃ trg para dev, utf8 trg = act_trg ∧ utf8 para = act_para ∧ utf8 dev = devid ∧
        cs = objectText (eventMembers act_id trg para dev date msg) := by
  constructor
  · intro h
    obtain ⟨cs₁, rfl, h₁⟩ := exists_of_utf8_eq_append h
    obtain ⟨trg, cs₂, rfl, htrg, h₂⟩ := exists_of_utf8_eq_ascii (by decide) h₁
    obtain ⟨cs₃, rfl, h₃⟩ := exists_of_utf8_eq_append h₂
    obtain ⟨para, cs₄, rfl, hpara, h₄⟩ := exists_of_utf8_eq_ascii (by decide) h₃
    obtain ⟨cs₅, rfl, h₅⟩ := exists_of_utf8_eq_append h₄
    obtain ⟨dev, cs₆, rfl, hdev, h₆⟩ := exists_of_utf8_eq_ascii (by decide) h₅
    obtain rfl := utf8_injective h₆
    exact ⟨trg, para, dev, htrg, hpara, hdev, objectText_eventMembers.symm⟩
  · rintro ⟨trg, para, dev, rfl, rfl, rfl, rfl⟩
    rw [objectText_eventMembers]
    simp only [pastedText, utf8_append, utf8_cons]

/-! ## Which events are JSON -/

/-- The members of an event that was parsed, up to the two that were pasted in. -/
theorem parse_eventMembers_some {v : Value} {ms : List (List Char × Value)}
    (hid : parse act_id = some v) (htrg : trg.length ≤ 4)
    (h : parse (objectText (eventMembers act_id trg para dev date msg)) = some (.object ms)) :
    (∃ v, parse trg = some v) ∧ ∃ p, member "act_para".toList ms = some (.string p) ∧
      (p = para → (∀ c ∈ para, Unescaped c) ∧
        ∃ d, member "dev_id".toList ms = some (.string d) ∧
          (d = dev → ∀ c ∈ dev, Unescaped c)) := by
  obtain ⟨v₀, hzero⟩ := Option.isSome_iff_exists.mp
    (show (parse ['0']).isSome = true by decide)
  obtain ⟨v₁, hone⟩ := Option.isSome_iff_exists.mp
    (show (parse ['1']).isSome = true by decide)
  obtain ⟨_, r, htype, hr⟩ := members_of_parse_object h
  obtain ⟨ms₁, _, rfl, hver⟩ := members_of_parse (by decide) (parse_quoted (by decide)) htype
  obtain ⟨ms₂, _, rfl, hprdct⟩ := members_of_parse (by decide) (parse_quoted (by decide)) hver
  obtain ⟨ms₃, _, rfl, hact⟩ := members_of_parse (by decide) (parse_quoted (by decide)) hprdct
  obtain ⟨ms₄, _, rfl, hsts⟩ := members_of_parse (by decide) hid hact
  obtain ⟨ms₅, _, rfl, hpasted⟩ := members_of_parse (by decide) hzero hsts
  obtain ⟨vtrg, ms₆, _, hv, rfl, hquoted⟩ := members_of_pasted (by decide) (by decide)
    ⟨'a', "ct_para".toList, by decide, by decide⟩ htrg hpasted hr
  obtain ⟨p, ms₇, _, rfl, hp⟩ := members_of_quoted (by decide) hquoted
  refine ⟨⟨vtrg, hv⟩, p, by simp [member_cons, member_self], fun hpara => ?_⟩
  obtain ⟨hplain, hevt⟩ := hp hpara
  obtain ⟨ms₈, _, rfl, hname⟩ := members_of_parse (by decide) hone hevt
  obtain ⟨ms₉, _, rfl, hagt⟩ := members_of_parse (by decide) (parse_quoted (by decide)) hname
  obtain ⟨ms₁₀, _, rfl, hms⟩ := members_of_parse (by decide) (parse_quoted (by decide)) hagt
  obtain ⟨ms₁₁, _, rfl, hdev⟩ := members_of_parse (by decide) (parse_quoted (by decide)) hms
  obtain ⟨d, ms₁₂, _, rfl, hd⟩ := members_of_quoted (by decide) hdev
  exact ⟨hplain, d, by simp [member_cons, member_self], fun heq => (hd heq).1⟩

/-- Where everything pasted in is what it should be, the members are there. -/
theorem parse_eventMembers {v vtrg : Value} (hid : parse act_id = some v)
    (htrg : parse trg = some vtrg) (hpara : ∀ c ∈ para, Unescaped c)
    (hdev : ∀ c ∈ dev, Unescaped c) (hdate : ∀ c ∈ date, Unescaped c)
    (hmsg : ∀ c ∈ msg, Unescaped c) :
    ∃ ms, parse (objectText (eventMembers act_id trg para dev date msg)) = some (.object ms) ∧
      ms.map (·.1) = eventNames ∧ member "dev_id".toList ms = some (.string dev) ∧
      member "act_para".toList ms = some (.string para) := by
  obtain ⟨v₀, hzero⟩ := Option.isSome_iff_exists.mp
    (show (parse ['0']).isSome = true by decide)
  obtain ⟨v₁, hone⟩ := Option.isSome_iff_exists.mp
    (show (parse ['1']).isSome = true by decide)
  refine ⟨[("type".toList, .string "event".toList), ("ver".toList, .string "2.00".toList),
    ("prdct".toList, .string "AP".toList), ("act_id".toList, v), ("act_sts".toList, v₀),
    ("act_trg".toList, vtrg), ("act_para".toList, .string para), ("evt_id".toList, v₁),
    ("agt_name".toList, .string "maomaoag".toList), ("agt_ver".toList, .string "9.9.9".toList),
    ("ms_ver".toList, .string "9.9.9".toList), ("dev_id".toList, .string dev),
    ("date".toList, .string date), ("msg".toList, .string msg)], ?_, rfl, ?_, ?_⟩
  · refine parse_objectText (List.cons_ne_nil _ _) ?_
    refine .cons (means_quoted (by decide) (by decide)) ?_
    refine .cons (means_quoted (by decide) (by decide)) ?_
    refine .cons (means_quoted (by decide) (by decide)) ?_
    refine .cons (means_of_parse (by decide) hid) ?_
    refine .cons (means_of_parse (by decide) hzero) ?_
    refine .cons (means_of_parse (by decide) htrg) ?_
    refine .cons (means_quoted (by decide) hpara) ?_
    refine .cons (means_of_parse (by decide) hone) ?_
    refine .cons (means_quoted (by decide) (by decide)) ?_
    refine .cons (means_quoted (by decide) (by decide)) ?_
    refine .cons (means_quoted (by decide) (by decide)) ?_
    refine .cons (means_quoted (by decide) hdev) ?_
    refine .cons (means_quoted (by decide) hdate) ?_
    exact .cons (means_quoted (by decide) hmsg) .nil
  · simp [member_cons, member_self]
  · simp [member_cons, member_self]

/-- The condition on what is pasted in. -/
theorem isEvent_pastedText {v : Value} (hid : parse act_id = some v)
    (hdate : ∀ c ∈ date, Unescaped c) (hmsg : ∀ c ∈ msg, Unescaped c)
    (hlen : act_trg.length ≤ 4) :
    IsEvent (pastedText act_id act_trg act_para devid date msg) devid act_para ↔
      IsJson act_trg ∧ Quotable act_para ∧ Quotable devid := by
  constructor
  · rintro ⟨cs, ms, d, p, htext, hparse, -, hdev, rfl, hpara, rfl⟩
    obtain ⟨trg, para, dev, rfl, hutf8, hutf8', rfl⟩ := utf8_eq_pastedText.mp htext
    obtain rfl := utf8_injective hutf8
    obtain rfl := utf8_injective hutf8'
    obtain ⟨⟨vtrg, htrg⟩, p, hp, hmore⟩ :=
      parse_eventMembers_some hid ((length_le_utf8 trg).trans hlen) hparse
    rw [hpara] at hp
    cases hp
    obtain ⟨hplain, d, hd, hdevPlain⟩ := hmore rfl
    rw [hdev] at hd
    cases hd
    exact ⟨⟨trg, vtrg, rfl, htrg⟩, ⟨para, rfl, hplain⟩, ⟨dev, rfl, hdevPlain rfl⟩⟩
  · rintro ⟨⟨trg, vtrg, rfl, htrg⟩, ⟨para, rfl, hpara⟩, ⟨dev, rfl, hdev⟩⟩
    obtain ⟨ms, hparse, hnames, hd, hp⟩ := parse_eventMembers hid htrg hpara hdev hdate hmsg
    exact ⟨_, ms, dev, para, utf8_eq_pastedText.mpr ⟨trg, para, dev, rfl, rfl, rfl, rfl⟩,
      hparse, hnames, hd, rfl, hp, rfl⟩

/-! ## What the two functions format -/

/-- The texts written to `tmpbuf`, one after the other, before they are cut. -/
def eventFields (act_id act_trg act_para devid date msg : Bytes) : List Bytes :=
  [bytes "\"type\":\"event\"", bytes ",\"ver\":\"2.00\"", bytes ",\"prdct\":\"AP\"",
   bytes ",\"act_id\":" ++ act_id, bytes ",\"act_sts\":0", bytes ",\"act_trg\":" ++ act_trg,
   bytes ",\"act_para\":\"" ++ act_para ++ bytes "\"", bytes ",\"evt_id\":1",
   bytes ",\"agt_name\":\"" ++ agName ++ bytes "\"",
   bytes ",\"agt_ver\":\"" ++ agVer ++ bytes "\"",
   bytes ",\"ms_ver\":\"" ++ msgVer ++ bytes "\"",
   bytes ",\"dev_id\":\"" ++ devid ++ bytes "\"", date,
   bytes ",\"msg\":\"" ++ msg ++ bytes "\""]

/-- The fields of an event in braces. -/
def eventText (fields : List Bytes) : Bytes := bytes "\x7b" ++ (fields.flatten ++ bytes "\x7d")

/-- `%m` and the like in characters. -/
def twoDigits (n : Nat) : List Char := [Char.ofNat (48 + n / 10 % 10), Char.ofNat (48 + n % 10)]

def dateChars (t : Tm) : List Char :=
  Nat.toDigits 10 t.year ++ '/' :: (twoDigits t.mon ++ '/' :: (twoDigits t.mday ++ ' ' ::
    (twoDigits t.hour ++ ':' :: (twoDigits t.min ++ ':' :: twoDigits t.sec))))

theorem decimal2_eq (n : Nat) : decimal2 n = utf8 (twoDigits n) := by
  have hdigit : ∀ d < 10, utf8 [Char.ofNat (48 + d)] = [UInt8.ofNat (48 + d)] := by decide
  have hpair : twoDigits n = [Char.ofNat (48 + n / 10 % 10)] ++ [Char.ofNat (48 + n % 10)] := rfl
  rw [hpair, utf8_append, hdigit _ (Nat.mod_lt _ (by decide)), hdigit _ (Nat.mod_lt _ (by decide))]
  rfl

theorem unescaped_twoDigits (n : Nat) : ∀ c ∈ twoDigits n, Unescaped c := by
  have hdigit : ∀ d < 10, Unescaped (Char.ofNat (48 + d)) := by decide
  simp only [twoDigits, List.mem_cons, List.not_mem_nil, or_false]
  rintro c (rfl | rfl)
  · exact hdigit _ (Nat.mod_lt _ (by decide))
  · exact hdigit _ (Nat.mod_lt _ (by decide))

theorem unescaped_toDigits {n : Nat} {c : Char} (h : c ∈ Nat.toDigits 10 n) : Unescaped c := by
  have hdigit := Nat.isDigit_of_mem_toDigits (by decide) (by decide) h
  simp only [Char.isDigit, Bool.and_eq_true, decide_eq_true_eq] at hdigit
  refine ⟨?_, ?_, ?_⟩
  · exact Nat.le_trans (by decide) hdigit.1
  · rintro rfl
    exact absurd hdigit (by decide)
  · rintro rfl
    exact absurd hdigit (by decide)

theorem unescaped_dateChars (t : Tm) : ∀ c ∈ dateChars t, Unescaped c := by
  have hslash : Unescaped '/' := by decide
  have hblank : Unescaped ' ' := by decide
  have hcolon : Unescaped ':' := by decide
  intro c hc
  simp only [dateChars, List.mem_append, List.mem_cons] at hc
  rcases hc with h | rfl | h | rfl | h | rfl | h | rfl | h | rfl | h <;>
    first
    | assumption
    | exact unescaped_toDigits h
    | exact unescaped_twoDigits _ _ h

theorem dateText_eq (t : Tm) :
    dateText t = utf8 (',' :: memberText ("date".toList, quoted (dateChars t))) := by
  have hname : bytes ",\"date\":\"" = utf8 (',' :: '"' :: ("date".toList ++ ['"', ':', '"'])) :=
    bytes_of_chars (by decide)
  have hslash : bytes "/" = utf8 ['/'] := bytes_of_chars (by decide)
  have hblank : bytes " " = utf8 [' '] := bytes_of_chars (by decide)
  have hcolon : bytes ":" = utf8 [':'] := bytes_of_chars (by decide)
  have hquote : bytes "\"" = utf8 ['"'] := bytes_of_chars (by decide)
  have hyear : decimal t.year = utf8 (Nat.toDigits 10 t.year) := rfl
  unfold dateText
  rw [hname, hslash, hblank, hcolon, hquote, hyear]
  simp only [decimal2_eq, memberText, quoted, dateChars, utf8_append, utf8_cons, utf8_nil,
    List.append_assoc, List.append_nil, List.cons_append]

theorem length_dateText {t : Tm} (hyear : t.year < 2 ^ 32) : (dateText t).length ≤ 127 := by
  have hdigits : (Nat.toDigits 10 t.year).length ≤ 10 :=
    (Nat.length_toDigits_le_iff (by decide) (by decide)).mpr (by omega)
  have hdecimal : (decimal t.year).length ≤ 4 * (Nat.toDigits 10 t.year).length :=
    length_utf8_le _
  have htwo : ∀ n, (decimal2 n).length = 2 := fun _ => rfl
  have hname : (bytes ",\"date\":\"").length = 9 := length_bytes (by decide)
  have hslash : (bytes "/").length = 1 := length_bytes (by decide)
  have hblank : (bytes " ").length = 1 := length_bytes (by decide)
  have hcolon : (bytes ":").length = 1 := length_bytes (by decide)
  have hquote : (bytes "\"").length = 1 := length_bytes (by decide)
  simp only [dateText, List.length_append, htwo, hname, hslash, hblank, hcolon, hquote]
  omega

/-- With these bounds `tmpbuf` is long enough for every field. -/
theorem eventFields_fit {act_id act_trg act_para devid date msg : Bytes} (hid : act_id.length ≤ 16)
    (htrg : act_trg.length ≤ 4) (hpara : act_para.length ≤ 12) (hdev : devid.length ≤ 92)
    (hdate : date.length ≤ 127) (hmsg : msg.length ≤ 32) :
    ∀ f ∈ eventFields act_id act_trg act_para devid date msg, snprintf 128 f = f := by
  have hcut : ∀ f : Bytes, f.length ≤ 127 → snprintf 128 f = f := fun f hf =>
    List.take_of_length_le hf
  have htype : (bytes "\"type\":\"event\"").length = 14 := length_bytes (by decide)
  have hver : (bytes ",\"ver\":\"2.00\"").length = 13 := length_bytes (by decide)
  have hprdct : (bytes ",\"prdct\":\"AP\"").length = 13 := length_bytes (by decide)
  have hact : (bytes ",\"act_id\":").length = 10 := length_bytes (by decide)
  have hsts : (bytes ",\"act_sts\":0").length = 12 := length_bytes (by decide)
  have htrg' : (bytes ",\"act_trg\":").length = 11 := length_bytes (by decide)
  have hpara' : (bytes ",\"act_para\":\"").length = 13 := length_bytes (by decide)
  have hevt : (bytes ",\"evt_id\":1").length = 11 := length_bytes (by decide)
  have hname : (bytes ",\"agt_name\":\"").length = 13 ∧ agName.length = 8 :=
    ⟨length_bytes (by decide), length_bytes (by decide)⟩
  have hagt : (bytes ",\"agt_ver\":\"").length = 12 ∧ agVer.length = 5 :=
    ⟨length_bytes (by decide), length_bytes (by decide)⟩
  have hms : (bytes ",\"ms_ver\":\"").length = 11 ∧ msgVer.length = 5 :=
    ⟨length_bytes (by decide), length_bytes (by decide)⟩
  have hdev' : (bytes ",\"dev_id\":\"").length = 11 := length_bytes (by decide)
  have hmsg' : (bytes ",\"msg\":\"").length = 8 := length_bytes (by decide)
  have hquote : (bytes "\"").length = 1 := length_bytes (by decide)
  simp only [eventFields, List.forall_mem_cons, List.not_mem_nil, false_implies, implies_true,
    and_true]
  refine ⟨hcut _ ?_, hcut _ ?_, hcut _ ?_, hcut _ ?_, hcut _ ?_, hcut _ ?_, hcut _ ?_, hcut _ ?_,
    hcut _ ?_, hcut _ ?_, hcut _ ?_, hcut _ ?_, hcut _ hdate, hcut _ ?_⟩
  all_goals
    try simp only [List.length_append]
    omega

/-- The fields written out are the event with these texts pasted in. -/
theorem eventText_eventFields (t : Tm) :
    eventText (eventFields (utf8 act_id) act_trg act_para devid (dateText t) (utf8 msg)) =
      pastedText act_id act_trg act_para devid (dateChars t) msg := by
  have hopen : bytes "\x7b" = utf8 ['\x7b'] := bytes_of_chars (by decide)
  have hclose : bytes "\x7d" = utf8 ['\x7d'] := bytes_of_chars (by decide)
  have hquote : bytes "\"" = utf8 ['"'] := bytes_of_chars (by decide)
  have htype : bytes "\"type\":\"event\"" =
      utf8 (memberText ("type".toList, quoted "event".toList)) := bytes_of_chars (by decide)
  have hver : bytes ",\"ver\":\"2.00\"" =
      utf8 (',' :: memberText ("ver".toList, quoted "2.00".toList)) := bytes_of_chars (by decide)
  have hprdct : bytes ",\"prdct\":\"AP\"" =
      utf8 (',' :: memberText ("prdct".toList, quoted "AP".toList)) := bytes_of_chars (by decide)
  have hid : bytes ",\"act_id\":" = utf8 (',' :: '"' :: ("act_id".toList ++ ['"', ':'])) :=
    bytes_of_chars (by decide)
  have hsts : bytes ",\"act_sts\":0" = utf8 (',' :: memberText ("act_sts".toList, ['0'])) :=
    bytes_of_chars (by decide)
  have htrg : bytes ",\"act_trg\":" = utf8 (',' :: '"' :: ("act_trg".toList ++ ['"', ':'])) :=
    bytes_of_chars (by decide)
  have hpara : bytes ",\"act_para\":\"" = utf8 (',' :: beforePara) := bytes_of_chars (by decide)
  have hevt : bytes ",\"evt_id\":1" = utf8 (',' :: memberText ("evt_id".toList, ['1'])) :=
    bytes_of_chars (by decide)
  have hname : bytes ",\"agt_name\":\"" = utf8 (',' :: '"' :: ("agt_name".toList ++
      ['"', ':', '"'])) := bytes_of_chars (by decide)
  have hagt : bytes ",\"agt_ver\":\"" = utf8 (',' :: '"' :: ("agt_ver".toList ++
      ['"', ':', '"'])) := bytes_of_chars (by decide)
  have hms : bytes ",\"ms_ver\":\"" = utf8 (',' :: '"' :: ("ms_ver".toList ++
      ['"', ':', '"'])) := bytes_of_chars (by decide)
  have hdev : bytes ",\"dev_id\":\"" =
      utf8 (',' :: '"' :: ("dev_id".toList ++ ['"', ':', '"'])) := bytes_of_chars (by decide)
  have hmsg : bytes ",\"msg\":\"" = utf8 (',' :: '"' :: ("msg".toList ++ ['"', ':', '"'])) :=
    bytes_of_chars (by decide)
  unfold eventText eventFields agName agVer msgVer
  rw [hopen, hclose, hquote, htype, hver, hprdct, hid, hsts, htrg, hpara, hevt, hname, hagt, hms,
    hdev, hmsg, dateText_eq, bytes_eq_utf8 "maomaoag", bytes_eq_utf8 "9.9.9"]
  simp only [List.flatten_cons, List.flatten_nil, pastedText, beforeTrg, beforePara, beforeDev,
    behindDev, memberText, quoted, utf8_append, utf8_cons, utf8_nil, List.append_assoc,
    List.append_nil, List.cons_append, List.nil_append]

theorem rcfiText_eq (act_id : Nat) (outcome rcid devid : Bytes) (t : Tm) :
    rcfiText act_id outcome rcid devid t =
      eventText ((eventFields (decimal act_id) rcid rcid devid (dateText t)
        (rcid2name rcid ++ outcome)).map (snprintf 128)) := by
  simp only [rcfiText, typeMembers, agentMembers, eventText, eventFields, List.map_cons,
    List.map_nil, List.flatten_append, List.flatten_cons, List.flatten_nil, List.append_assoc,
    List.append_nil]

/-- The pieces of a test event up to its date. -/
def sendtestHead (devid : Bytes) : List Bytes :=
  typeMembers ++
    [snprintf 128 (bytes ",\"act_id\":9999"),
     snprintf 128 (bytes ",\"act_sts\":0"),
     snprintf 128 (bytes ",\"act_trg\":0"),
     snprintf 128 (bytes ",\"act_para\":\"Test message\"")] ++
    agentMembers devid

theorem length_sendtestHead (devid : Bytes) : (sendtestHead devid).flatten.length ≤ 320 := by
  have hfixed : (typeMembers ++
      [snprintf 128 (bytes ",\"act_id\":9999"),
       snprintf 128 (bytes ",\"act_sts\":0"),
       snprintf 128 (bytes ",\"act_trg\":0"),
       snprintf 128 (bytes ",\"act_para\":\"Test message\"")]).flatten.length ≤ 125 := by
    decide +kernel
  have hagent := length_agentMembers devid
  rw [sendtestHead, List.flatten_append, List.length_append]
  omega

theorem sendtest_fields (devid : Bytes) (t : Tm) :
    bytes "\x7b" ++ ((eventFields (bytes "9999") (bytes "0") (bytes "Test message") devid
      (dateText t) (bytes "テスト通知")).map (snprintf 128)).flatten ++ bytes "\x7d" =
      (sendtestHead devid).flatten ++ [snprintf 128 (dateText t),
        snprintf 128 (bytes ",\"msg\":\"テスト通知\""), bytes "\x7d"].flatten := by
  have hid : bytes ",\"act_id\":" ++ bytes "9999" = bytes ",\"act_id\":9999" :=
    bytes_append_of_chars (by decide)
  have htrg : bytes ",\"act_trg\":" ++ bytes "0" = bytes ",\"act_trg\":0" :=
    bytes_append_of_chars (by decide)
  have hpara : bytes ",\"act_para\":\"" ++ (bytes "Test message" ++ bytes "\"") =
      bytes ",\"act_para\":\"Test message\"" := by
    rw [bytes_append_of_chars (u := "Test message\"") (by decide)]
    exact bytes_append_of_chars (by decide)
  have hmsg : bytes ",\"msg\":\"" ++ (bytes "テスト通知" ++ bytes "\"") =
      bytes ",\"msg\":\"テスト通知\"" := by
    rw [bytes_append_of_chars (u := "テスト通知\"") (by decide)]
    exact bytes_append_of_chars (by decide)
  simp only [eventFields, sendtestHead, typeMembers, agentMembers, hid, htrg, hpara, hmsg,
    List.map_cons, List.map_nil, List.flatten_append, List.flatten_cons, List.flatten_nil,
    List.append_assoc, List.append_nil]

/-- `admlink_cmd_sendtest` has room for its text whatever the device id. -/
theorem sendtestText_apply {t : Tm} {w : World} (htm : w.agent.tinfo = some t) :
    sendtestText w = .ok (eventText ((eventFields (bytes "9999") (bytes "0")
      (bytes "Test message") w.agent.devid.str (dateText t) (bytes "テスト通知")).map
        (snprintf 128))) (w.log (.strftime (some t))) := by
  have hhead := length_sendtestHead w.agent.devid.str
  have hfront : strcats 512 [] (sendtestHead w.agent.devid.str) =
      .ok (sendtestHead w.agent.devid.str).flatten :=
    strcats_fits (by rw [List.nil_append]; omega)
  have hback : strcats 512 (sendtestHead w.agent.devid.str).flatten
      [snprintf 128 (dateText t), snprintf 128 (bytes ",\"msg\":\"テスト通知\""), bytes "\x7d"] =
      .ok (eventText ((eventFields (bytes "9999") (bytes "0") (bytes "Test message")
        w.agent.devid.str (dateText t) (bytes "テスト通知")).map (snprintf 128))) := by
    have hdate := (length_snprintf (dateText t)).1
    have hmsg := (length_snprintf (bytes ",\"msg\":\"テスト通知\"")).2
    rw [length_bytes (n := 24) (by decide)] at hmsg
    have hend : (bytes "\x7d").length = 1 := length_bytes (by decide)
    rw [strcats_fits, ← sendtest_fields, eventText, List.append_assoc]
    simp only [List.flatten_cons, List.flatten_nil, List.length_append, List.length_nil] at *
    omega
  unfold sendtestText
  rw [bind_of_ok (get_apply w)]
  change (orFault (strcats 512 [] (sendtestHead w.agent.devid.str)) >>= _) w = _
  rw [hfront]
  rw [bind_of_ok (show orFault (.ok (sendtestHead w.agent.devid.str).flatten) w =
    .ok _ w from rfl), bind_of_ok (strftimeTinfo_apply htm), hback]
  rfl

/-- The text is there, no field of it was cut, and it is the event it should be. -/
def EventWritten (r : EStateM.Result Stop World Bytes) (fields : List Bytes)
    (devid act_para : Bytes) : Prop :=
  ∃ text u, r = .ok text u ∧ text = eventText fields ∧ IsEvent text devid act_para

theorem eventWritten_iff {r : EStateM.Result Stop World Bytes} {u : World} {v : Value} {t : Tm}
    {act_id msg : List Char} {act_trg act_para devid : Bytes}
    (hr : r = .ok (eventText ((eventFields (utf8 act_id) act_trg act_para devid (dateText t)
      (utf8 msg)).map (snprintf 128))) u)
    (hid : parse act_id = some v) (hmsg : ∀ c ∈ msg, Unescaped c) (hidlen : act_id.length ≤ 4)
    (hmsglen : (utf8 msg).length ≤ 32) (htrg : act_trg.length ≤ 4) (hpara : act_para.length ≤ 12)
    (hdev : devid.length ≤ 92) (hyear : t.year < 2 ^ 32) :
    EventWritten r (eventFields (utf8 act_id) act_trg act_para devid (dateText t) (utf8 msg))
        devid act_para ↔ IsJson act_trg ∧ Quotable act_para ∧ Quotable devid := by
  have hidbytes : (utf8 act_id).length ≤ 16 := (length_utf8_le act_id).trans (by omega)
  have hfit := eventFields_fit hidbytes htrg hpara hdev (length_dateText hyear) hmsglen
  have hmap : (eventFields (utf8 act_id) act_trg act_para devid (dateText t) (utf8 msg)).map
      (snprintf 128) =
      eventFields (utf8 act_id) act_trg act_para devid (dateText t) (utf8 msg) :=
    (List.map_congr_left hfit).trans (List.map_id _)
  rw [hmap] at hr
  rw [← isEvent_pastedText hid (unescaped_dateChars t) hmsg htrg, ← eventText_eventFields]
  constructor
  · rintro ⟨text, u', -, rfl, hevent⟩
    exact hevent
  · intro hevent
    exact ⟨_, u, hr, rfl, hevent⟩

/-! ## Every id and every device id -/

/-- What `get_rcfi_msg` formats for an id it has cut. -/
def rcfiFields (success : Bool) (id devid : Bytes) (t : Tm) : List Bytes :=
  eventFields (decimal (if success then 7777 else 7788)) id id devid (dateText t)
    (rcid2name id ++ (if success then bytes "is ok" else bytes "is failed"))

/-- What `admlink_cmd_sendtest` formats. -/
def sendtestFields (devid : Bytes) (t : Tm) : List Bytes :=
  eventFields (bytes "9999") (bytes "0") (bytes "Test message") devid (dateText t)
    (bytes "テスト通知")

theorem rcid2name_chars (id : Bytes) : ∃ n ∈ ["Reboot", "I'm here", "UNKNOWN"],
    rcid2name id = bytes n := by
  unfold rcid2name
  split
  · exact ⟨"Reboot", by simp, rfl⟩
  · split
    · exact ⟨"I'm here", by simp, rfl⟩
    · exact ⟨"UNKNOWN", by simp, rfl⟩

/-- The message of an event is short and stands between quotes as it is. -/
theorem rcfi_msg (id : Bytes) (success : Bool) :
    ∃ msg, rcid2name id ++ (if success then bytes "is ok" else bytes "is failed") = utf8 msg ∧
      (∀ c ∈ msg, Unescaped c) ∧ (utf8 msg).length ≤ 32 := by
  obtain ⟨n, hn, hname⟩ := rcid2name_chars id
  have hall : ∀ n ∈ ["Reboot", "I'm here", "UNKNOWN"], ∀ o ∈ ["is ok", "is failed"],
      (∀ c ∈ n.toList ++ o.toList, Unescaped c) ∧ (utf8 (n.toList ++ o.toList)).length ≤ 32 := by
    decide
  have houtcome : ∃ o ∈ ["is ok", "is failed"],
      (if success then bytes "is ok" else bytes "is failed") = bytes o := by
    cases success with
    | true => exact ⟨"is ok", by simp, rfl⟩
    | false => exact ⟨"is failed", by simp, rfl⟩
  obtain ⟨o, ho, houtcome⟩ := houtcome
  refine ⟨n.toList ++ o.toList, ?_, hall n hn o ho⟩
  rw [hname, houtcome, bytes_eq_utf8, bytes_eq_utf8, utf8_append]

theorem rcfi_act_id (success : Bool) :
    (parse (Nat.toDigits 10 (if success then 7777 else 7788))).isSome = true ∧
      (Nat.toDigits 10 (if success then 7777 else 7788)).length ≤ 4 := by
  revert success
  decide

section Written

variable {arg : Option Bytes} {t : Tm} {w : World}

theorem getRcfiMsg_written {rcid : CBuf} (success : Bool) (hkept : FieldsKept arg)
    (hdev : w.agent.devid.str = deviceId arg) (htm : w.agent.tinfo = some t)
    (hyear : t.year < 2 ^ 32) (hlen : 4 ≤ rcid.str.length) (hroom : rcid.str.length < rcid.size) :
    EventWritten (getRcfiMsg rcid success w)
        (rcfiFields success (rcid.str.take 4) (deviceId arg) t) (deviceId arg) (rcid.str.take 4) ↔
      IsJson (rcid.str.take 4) ∧ Quotable (rcid.str.take 4) ∧ Quotable (deviceId arg) := by
  obtain ⟨msg, hmsg, hplain, hmsglen⟩ := rcfi_msg (rcid.str.take 4) success
  have hid : decimal (if success then 7777 else 7788) =
      utf8 (Nat.toDigits 10 (if success then 7777 else 7788)) := rfl
  obtain ⟨hnumber, hidlen⟩ := rcfi_act_id success
  obtain ⟨v, hv⟩ := Option.isSome_iff_exists.mp hnumber
  have hrun := getRcfiMsg_apply (show 4 < rcid.size by omega) htm success
  rw [rcfiText_eq, hmsg, hid, hdev] at hrun
  have htake : (rcid.str.take 4).length ≤ 4 := by
    rw [List.length_take]
    omega
  unfold rcfiFields
  rw [hmsg, hid]
  exact eventWritten_iff hrun hv hplain hidlen hmsglen htake (by omega) hkept.length_le hyear

theorem sendtestText_written (hkept : FieldsKept arg) (hdev : w.agent.devid.str = deviceId arg)
    (htm : w.agent.tinfo = some t) (hyear : t.year < 2 ^ 32) :
    EventWritten (sendtestText w) (sendtestFields (deviceId arg) t) (deviceId arg)
        (bytes "Test message") ↔ Quotable (deviceId arg) := by
  have hid : (parse "9999".toList).isSome = true := by decide
  have hzero : (parse "0".toList).isSome = true := by decide
  have hmsglen : (utf8 "テスト通知".toList).length ≤ 32 := by decide
  have hzerolen : (bytes "0").length = 1 := length_bytes (by decide)
  have hparalen : (bytes "Test message").length = 12 := length_bytes (by decide)
  obtain ⟨v, hv⟩ := Option.isSome_iff_exists.mp hid
  obtain ⟨v₀, hv₀⟩ := Option.isSome_iff_exists.mp hzero
  have htrg : IsJson (bytes "0") := ⟨"0".toList, v₀, (bytes_eq_utf8 "0").symm, hv₀⟩
  have hpara : Quotable (bytes "Test message") :=
    ⟨"Test message".toList, (bytes_eq_utf8 _).symm, by decide⟩
  have hrun := sendtestText_apply htm
  rw [hdev, bytes_eq_utf8 "9999", bytes_eq_utf8 "テスト通知"] at hrun
  unfold sendtestFields
  rw [bytes_eq_utf8 "9999", bytes_eq_utf8 "テスト通知"]
  rw [eventWritten_iff hrun hv (by decide) (by decide) hmsglen (by omega) hparalen.le
    hkept.length_le hyear]
  exact ⟨fun h => h.2.2, fun h => ⟨htrg, hpara, h⟩⟩

end Written

/-- When the events the agent uploads are JSON with the members they should
have. `tm_year` is an `int`, which bounds the year. -/
theorem events_valid (arg : Option Bytes) (rcid : CBuf) (success : Bool) (t : Tm) (w : World)
    (hkept : FieldsKept arg) (hdev : w.agent.devid.str = deviceId arg)
    (htm : w.agent.tinfo = some t) (hyear : t.year < 2 ^ 32) (hlen : 4 ≤ rcid.str.length)
    (hroom : rcid.str.length < rcid.size) :
    (EventWritten (getRcfiMsg rcid success w)
        (rcfiFields success (rcid.str.take 4) (deviceId arg) t) (deviceId arg) (rcid.str.take 4) ↔
      IsJson (rcid.str.take 4) ∧ Quotable (rcid.str.take 4) ∧ Quotable (deviceId arg)) ∧
    (EventWritten (sendtestText w) (sendtestFields (deviceId arg) t) (deviceId arg)
        (bytes "Test message") ↔ Quotable (deviceId arg)) :=
  ⟨getRcfiMsg_written success hkept hdev htm hyear hlen hroom,
    sendtestText_written hkept hdev htm hyear⟩

theorem deviceId_none : deviceId none = bytes "maomaoag" := if_pos rfl

theorem dated_tinfo : dated.agent.tinfo = some ⟨2024, 1, 2, 3, 4, 5⟩ := by decide +kernel

theorem dated_devid : dated.agent.devid.str = deviceId none := by decide +kernel

theorem dated_kept : FieldsKept none := by
  refine fieldsKept_of_le ?_
  rw [deviceId_none, length_bytes (n := 8) (by decide)]
  decide

/-- Four letters and digits between quotes. -/
theorem plainBuf_id {s : String} (hlen : (utf8 s.toList).length = 4)
    (hplain : ∀ c ∈ bytes s, Plain c) :
    (plainBuf (bytes s)).str.take 4 = bytes s ∧ (plainBuf (bytes s)).str.length = 4 ∧
      (plainBuf (bytes s)).size = 5 := by
  have hbytes : (bytes s).length = 4 := length_bytes hlen
  have hsize : (plainBuf (bytes s)).size = (bytes s).length + 1 := rfl
  rw [str_plainBuf hplain, hsize, hbytes]
  exact ⟨List.take_of_length_le hbytes.le, rfl, rfl⟩

theorem events_valid_reboot :
    EventWritten (getRcfiMsg (plainBuf (bytes "1000")) false dated)
        (rcfiFields false (bytes "1000") (deviceId none) ⟨2024, 1, 2, 3, 4, 5⟩) (deviceId none)
        (bytes "1000") ∧
      EventWritten (sendtestText dated) (sendtestFields (deviceId none) ⟨2024, 1, 2, 3, 4, 5⟩)
        (deviceId none) (bytes "Test message") := by
  obtain ⟨hcut, hlen, hsize⟩ := plainBuf_id (s := "1000") (by decide)
    (forall_bytes (by decide))
  have hvalid := events_valid none (plainBuf (bytes "1000")) false ⟨2024, 1, 2, 3, 4, 5⟩ dated
    dated_kept dated_devid dated_tinfo (by decide) hlen.ge (by omega)
  rw [hcut] at hvalid
  obtain ⟨v, hv⟩ := Option.isSome_iff_exists.mp
    (show (parse "1000".toList).isSome = true by decide)
  have hid : Quotable (bytes "1000") := ⟨"1000".toList, (bytes_eq_utf8 _).symm, by decide⟩
  have hplain : ∀ c ∈ "maomaoag".toList, Unescaped c := by decide
  have hdev : Quotable (deviceId none) :=
    ⟨"maomaoag".toList, ((bytes_eq_utf8 _).symm.trans deviceId_none.symm), hplain⟩
  exact ⟨hvalid.1.mpr ⟨⟨"1000".toList, v, (bytes_eq_utf8 _).symm, hv⟩, hid, hdev⟩,
    hvalid.2.mpr hdev⟩

/-- The four letters of an id go in without quotes. -/
theorem letters_no_json :
    ¬ ∀ (arg : Option Bytes) (rcid : CBuf) (success : Bool) (t : Tm) (w : World), FieldsKept arg →
      w.agent.devid.str = deviceId arg → w.agent.tinfo = some t → t.year < 2 ^ 32 →
      4 ≤ rcid.str.length → rcid.str.length < rcid.size →
      EventWritten (getRcfiMsg rcid success w)
          (rcfiFields success (rcid.str.take 4) (deviceId arg) t) (deviceId arg)
          (rcid.str.take 4) ∧
        EventWritten (sendtestText w) (sendtestFields (deviceId arg) t) (deviceId arg)
          (bytes "Test message") := by
  intro h
  obtain ⟨hcut, hlen, hsize⟩ := plainBuf_id (s := "abcd") (by decide)
    (forall_bytes (by decide))
  have hwritten := (h none (plainBuf (bytes "abcd")) false ⟨2024, 1, 2, 3, 4, 5⟩ dated dated_kept
    dated_devid dated_tinfo (by decide) hlen.ge (by omega)).1
  rw [getRcfiMsg_written false dated_kept dated_devid dated_tinfo (by decide) hlen.ge (by omega),
    hcut, bytes_eq_utf8] at hwritten
  obtain ⟨⟨cs, v, hcs, hv⟩, -⟩ := hwritten
  obtain rfl := utf8_injective hcs
  have hnone : (parse "abcd".toList).isNone = true := by decide
  rw [hv] at hnone
  cases hnone

end Admlink
