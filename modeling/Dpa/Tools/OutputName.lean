import Dpa.Library.Template

namespace Dpa.Tools.OutputName

open Template

inductive OutputMode
  | stdout
  | fileByDay
  | singleFile
  deriving DecidableEq

inductive NameError
  | invalidFileName
  | fileNameTooLong
  deriving DecidableEq

def NameError.text : NameError → String
  | invalidFileName => "Invalid file name."
  | fileNameTooLong => "File name too long."

/-- What `output_name_format` reads of `options_t`. -/
structure NameOptions where
  devName : List Char
  outputName : Option (List Char)
  queueId : ℤ

/-- The string that is being rewritten, the length that goes with it and the place of `pos`. -/
structure Rewriting where
  name : List Char
  len : ℕ
  pos : ℕ

def Rewriting.advance (s : Rewriting) (k : ℕ) : Rewriting := { s with pos := s.pos + k }

/-- `format_spec_replace`: the two characters at `pos` make way for `rep`. -/
def formatSpecReplace (s : Rewriting) (rep : List Char) : Rewriting :=
  let newSize := s.len + rep.length - 2 + 1
  { name := (s.name.take s.pos ++ rep ++ s.name.drop (s.pos + 2)).take (newSize - 1)
    len := newSize - 1
    pos := s.pos + rep.length }

/-- The character that stands for a date to come, before an `F`. -/
def dateMark : Char := Char.ofNat 8

def datePlaceholder : List Char := "YYYY-MM-DD".toList

def queueString (queueId : ℤ) : List Char :=
  if 0 ≤ queueId then "queue-".toList ++ Nat.toDigits 10 queueId.toNat else "all-queue".toList

def snprintf (size : ℕ) (s : List Char) : List Char := s.take (size - 1)

/-- The `switch` of `output_name_format`, with `pos` at a percent sign that is not the last
character. -/
def formatDirective (opt : NameOptions) (s : Rewriting) (mode : OutputMode) :
    Rewriting × OutputMode :=
  match s.name.getD (s.pos + 1) (Char.ofNat 0) with
  | 'D' => (formatSpecReplace s opt.devName, mode)
  | 'Q' => (formatSpecReplace s (snprintf 12 (queueString opt.queueId)), mode)
  | 'F' => ({ s with name := s.name.set s.pos dateMark }, .fileByDay)
  | '%' => (formatSpecReplace s ['%'], mode)
  | _ => (s.advance 1, mode)

/-- The loop of `output_name_format`, `none` where the fuel does not suffice. -/
def formatLoop (opt : NameOptions) : ℕ → Rewriting → OutputMode → Option (OutputMode × List Char)
  | 0, _, _ => none
  | fuel + 1, s, mode =>
    match find ['%'] (s.name.drop s.pos) with
    | none => some (mode, s.name)
    | some k =>
      if s.pos + k = s.len - 1 then some (mode, s.name)
      else
        let next := formatDirective opt (s.advance k) mode
        formatLoop opt fuel next.1 next.2

/-- `output_name_format`: the mode and the name that it leaves. -/
def outputNameFormat (fuel : ℕ) (opt : NameOptions) :
    Option (Except NameError (OutputMode × Option (List Char))) :=
  match opt.outputName with
  | none => some (.ok (.stdout, none))
  | some name =>
    if name.length = 0 then some (.error .invalidFileName)
    else (formatLoop opt fuel ⟨name, name.length, 0⟩ .singleFile).map fun r ↦ .ok (r.1, some r.2)

def dateLoop : ℕ → Rewriting → List ℕ → Except NameError (List Char × List ℕ)
  | room, s, offsets =>
    match find [dateMark, 'F'] (s.name.drop s.pos), room with
    | none, _ => .ok (s.name, offsets)
    | some _, 0 => .error .fileNameTooLong
    | some k, room + 1 =>
      dateLoop room (formatSpecReplace (s.advance k) datePlaceholder) (offsets ++ [s.pos + k])

def numOffsets : ℕ := 255 / datePlaceholder.length

/-- `output_name_date_replace`: the name with placeholders, and where they are. -/
def outputNameDateReplace (name : List Char) : Except NameError (List Char × List ℕ) :=
  dateLoop numOffsets ⟨name, name.length, 0⟩ []

/-- `stats_report` on a new day. -/
def dailyOverwrite (offsets : List ℕ) (name date : List Char) : List Char :=
  offsets.foldl (overwrite date) name

/-- What the two characters of a directive stand for, with a hole for the date. -/
def directive (dev queue : List Char) : Char → Option (List (Option Char))
  | 'D' => some (dev.map some)
  | 'Q' => some (queue.map some)
  | 'F' => some [none]
  | '%' => some [some '%']
  | _ => none

def expand (dev queue : List Char) : List Char → List (Option Char)
  | [] => []
  | [c] => [some c]
  | c :: d :: rest =>
    match c, directive dev queue d with
    | '%', some piece => piece ++ expand dev queue rest
    | _, _ => some c :: expand dev queue (d :: rest)

def NameOptions.expansion (opt : NameOptions) (template : List Char) : List (Option Char) :=
  expand opt.devName (queueString opt.queueId) template

def Rewriting.parts (pre rest : List Char) : Rewriting :=
  ⟨pre ++ rest, (pre ++ rest).length, pre.length⟩

section

variable {opt : NameOptions} {mode : OutputMode} {fuel room : ℕ} {c d : Char} {offsets : List ℕ}
  {dev queue pre text rest rep date : List Char} {t : List (Option Char)}

theorem drop_parts (pre rest : List Char) :
    (Rewriting.parts pre rest).name.drop (Rewriting.parts pre rest).pos = rest :=
  List.drop_left

theorem advance_parts (pre text rest : List Char) :
    (Rewriting.parts pre (text ++ rest)).advance text.length = .parts (pre ++ text) rest := by
  simp [Rewriting.parts, Rewriting.advance]

theorem name_parts_append (pre text rest : List Char) :
    (Rewriting.parts pre (text ++ rest)).name = (Rewriting.parts (pre ++ text) rest).name :=
  (List.append_assoc _ _ _).symm

theorem len_parts_append (pre text rest : List Char) :
    (Rewriting.parts pre (text ++ rest)).len = (Rewriting.parts (pre ++ text) rest).len :=
  congrArg List.length (name_parts_append pre text rest)

theorem pos_parts_append (pre text rest : List Char) (k : ℕ) :
    (Rewriting.parts pre (text ++ rest)).pos + (text.length + k) =
      (Rewriting.parts (pre ++ text) rest).pos + k := by
  simp [Rewriting.parts, Nat.add_assoc]

theorem advance_parts_append (pre text rest : List Char) (k : ℕ) :
    (Rewriting.parts pre (text ++ rest)).advance (text.length + k) =
      (Rewriting.parts (pre ++ text) rest).advance k := by
  simp [Rewriting.parts, Rewriting.advance, Nat.add_assoc]

theorem formatSpecReplace_parts (pre rest rep : List Char) (c d : Char) :
    formatSpecReplace (.parts pre (c :: d :: rest)) rep = .parts (pre ++ rep) rest := by
  have hlen : (pre ++ c :: d :: rest).length + rep.length - 2 + 1 - 1 =
      (pre ++ rep ++ rest).length := by
    simp only [List.length_append, List.length_cons]
    omega
  have hdrop : (pre ++ c :: d :: rest).drop (pre.length + 2) = rest := by
    rw [← List.drop_drop, List.drop_left]
    rfl
  have hpos : pre.length + rep.length = (pre ++ rep).length := List.length_append.symm
  simp only [formatSpecReplace, Rewriting.parts, hlen, hdrop, hpos, List.take_left,
    List.take_length]

theorem formatLoop_nil (pre : List Char) :
    formatLoop opt (fuel + 1) (.parts pre []) mode = some (mode, pre) := by
  simp only [formatLoop, drop_parts]
  exact congrArg (fun name ↦ some (mode, name)) (List.append_nil pre)

theorem formatLoop_append (htext : '%' ∉ text) :
    formatLoop opt fuel (.parts pre (text ++ rest)) mode =
      formatLoop opt fuel (.parts (pre ++ text) rest) mode := by
  cases fuel with
  | zero => rfl
  | succ fuel =>
    simp only [formatLoop, drop_parts, find_append htext]
    cases find ['%'] rest with
    | none => simp [name_parts_append]
    | some k =>
      simp [name_parts_append, len_parts_append, pos_parts_append, advance_parts_append]

theorem formatLoop_trailing (pre : List Char) :
    formatLoop opt (fuel + 1) (.parts pre ['%']) mode = some (mode, pre ++ ['%']) := by
  have hfind : find ['%'] ['%'] = some 0 := rfl
  have hpos : (Rewriting.parts pre ['%']).pos + 0 = (Rewriting.parts pre ['%']).len - 1 := by
    simp [Rewriting.parts]
  simp only [formatLoop, drop_parts, hfind, if_pos hpos]
  rfl

theorem formatLoop_directive (pre rest : List Char) (d : Char) :
    formatLoop opt (fuel + 1) (.parts pre ('%' :: d :: rest)) mode =
      formatLoop opt fuel (formatDirective opt (.parts pre ('%' :: d :: rest)) mode).1
        (formatDirective opt (.parts pre ('%' :: d :: rest)) mode).2 := by
  have hfind : find ['%'] ('%' :: d :: rest) = some 0 := find_mark List.not_mem_nil [] (d :: rest)
  have hpos : (Rewriting.parts pre ('%' :: d :: rest)).pos + 0 ≠
      (Rewriting.parts pre ('%' :: d :: rest)).len - 1 := by
    simp only [Rewriting.parts, List.length_append, List.length_cons]
    omega
  simp only [formatLoop, drop_parts, hfind, if_neg hpos]
  rfl

theorem getD_parts (pre rest : List Char) (c d : Char) :
    (Rewriting.parts pre (c :: d :: rest)).name.getD
      ((Rewriting.parts pre (c :: d :: rest)).pos + 1) (Char.ofNat 0) = d := by
  simp [Rewriting.parts]

theorem set_parts (pre rest : List Char) (c d : Char) :
    { Rewriting.parts pre (c :: rest) with
      name := (Rewriting.parts pre (c :: rest)).name.set (Rewriting.parts pre (c :: rest)).pos d } =
      Rewriting.parts pre (d :: rest) := by
  simp [Rewriting.parts]

/-- What the loop goes on with after a directive is past its expansion. -/
theorem formatDirective_some {piece : List (Option Char)}
    (hqueue : snprintf 12 (queueString opt.queueId) = queue)
    (h : directive opt.devName queue d = some piece) :
    formatLoop opt fuel (formatDirective opt (.parts pre ('%' :: d :: rest)) mode).1
        (formatDirective opt (.parts pre ('%' :: d :: rest)) mode).2 =
      formatLoop opt fuel (.parts (pre ++ fill [dateMark, 'F'] piece) rest)
        (if none ∈ piece then .fileByDay else mode) := by
  simp only [formatDirective, getD_parts, formatSpecReplace_parts, hqueue, set_parts]
  unfold directive at h
  split at h
  · obtain rfl := Option.some.inj h
    simp
  · obtain rfl := Option.some.inj h
    simp
  · obtain rfl := Option.some.inj h
    have hmark : '%' ∉ [dateMark, 'F'] := by decide
    simpa using formatLoop_append hmark
  · obtain rfl := Option.some.inj h
    simp
  · cases h

theorem formatDirective_none (h : directive dev queue d = none) :
    formatDirective opt (.parts pre ('%' :: d :: rest)) mode =
      (.parts (pre ++ ['%']) (d :: rest), mode) := by
  have hadvance := advance_parts pre ['%'] (d :: rest)
  simp only [formatDirective, getD_parts]
  unfold directive at h
  split at h
  · cases h
  · cases h
  · cases h
  · cases h
  · simpa using hadvance

theorem expand_of_not_directive
    (h : ∀ piece, c = '%' → directive dev queue d = some piece → False) :
    expand dev queue (c :: d :: rest) = some c :: expand dev queue (d :: rest) := by
  rw [expand]
  exact h

/-- The loop of `output_name_format`, from any place of the string on. -/
theorem formatLoop_expand (hqueue : snprintf 12 (queueString opt.queueId) = queue)
    (hfuel : rest.count '%' < fuel) :
    formatLoop opt fuel (.parts pre rest) mode =
      some (if none ∈ expand opt.devName queue rest then .fileByDay else mode,
        pre ++ fill [dateMark, 'F'] (expand opt.devName queue rest)) := by
  obtain ⟨fuel, rfl⟩ := Nat.exists_eq_add_one_of_ne_zero (Nat.ne_of_gt (Nat.zero_lt_of_lt hfuel))
  induction rest using expand.induct opt.devName queue
    generalizing fuel pre mode with
  | case1 => simpa [expand] using formatLoop_nil pre
  | case2 c =>
    by_cases hc : c = '%'
    · subst hc
      exact formatLoop_trailing pre
    · have hskip : '%' ∉ [c] := by simpa using Ne.symm hc
      have happend : formatLoop opt (fuel + 1) (.parts pre [c]) mode =
          formatLoop opt (fuel + 1) (.parts (pre ++ [c]) []) mode := formatLoop_append hskip
      exact happend.trans (formatLoop_nil _)
  | case3 d rest piece hdirective ih =>
    have hcount : rest.count '%' < fuel := by
      rw [List.count_cons_self] at hfuel
      exact (List.count_le_count_cons).trans_lt (Nat.lt_of_succ_lt_succ hfuel)
    obtain ⟨fuel, rfl⟩ := Nat.exists_eq_add_one_of_ne_zero (Nat.ne_of_gt (Nat.zero_lt_of_lt hcount))
    have hexpand : expand opt.devName queue ('%' :: d :: rest) =
        piece ++ expand opt.devName queue rest := by
      simp only [expand, hdirective]
    rw [formatLoop_directive, formatDirective_some hqueue hdirective, ih fuel hcount, hexpand,
      fill_append, List.append_assoc]
    by_cases hpiece : none ∈ piece
    · simp [hpiece]
    · simp [hpiece]
  | case4 c d rest hother ih =>
    rw [expand_of_not_directive hother, fill_some]
    by_cases hc : c = '%'
    · subst hc
      have hnone : directive opt.devName queue d = none :=
        Option.eq_none_iff_forall_ne_some.2 fun piece hpiece ↦ hother piece rfl hpiece
      have hcount : (d :: rest).count '%' < fuel := by
        rw [List.count_cons_self] at hfuel
        exact Nat.lt_of_succ_lt_succ hfuel
      obtain ⟨fuel, rfl⟩ :=
        Nat.exists_eq_add_one_of_ne_zero (Nat.ne_of_gt (Nat.zero_lt_of_lt hcount))
      rw [formatLoop_directive, formatDirective_none hnone, ih fuel hcount]
      simp
    · have hskip : '%' ∉ [c] := by simpa using Ne.symm hc
      have happend : formatLoop opt (fuel + 1) (.parts pre (c :: d :: rest)) mode =
          formatLoop opt (fuel + 1) (.parts (pre ++ [c]) (d :: rest)) mode :=
        formatLoop_append hskip
      rw [List.count_cons_of_ne hc] at hfuel
      rw [happend, ih fuel hfuel]
      simp

theorem dateLoop_append (htext : dateMark ∉ text) :
    dateLoop room (.parts pre (text ++ rest)) offsets =
      dateLoop room (.parts (pre ++ text) rest) offsets := by
  unfold dateLoop
  simp only [drop_parts, find_append htext]
  cases find [dateMark, 'F'] rest with
  | none => simp [name_parts_append]
  | some k =>
    cases room with
    | zero => rfl
    | succ room => simp [pos_parts_append, advance_parts_append]

theorem dateLoop_mark_zero (pre rest : List Char) :
    dateLoop 0 (.parts pre (dateMark :: 'F' :: rest)) offsets = .error .fileNameTooLong := by
  have hfind : find [dateMark, 'F'] (dateMark :: 'F' :: rest) = some 0 :=
    find_mark List.not_mem_nil ['F'] rest
  unfold dateLoop
  simp only [drop_parts, hfind]

theorem dateLoop_mark (pre rest : List Char) :
    dateLoop (room + 1) (.parts pre (dateMark :: 'F' :: rest)) offsets =
      dateLoop room (.parts (pre ++ datePlaceholder) rest) (offsets ++ [pre.length]) := by
  have hfind : find [dateMark, 'F'] (dateMark :: 'F' :: rest) = some 0 :=
    find_mark List.not_mem_nil ['F'] rest
  conv_lhs => unfold dateLoop
  simp only [drop_parts, hfind]
  rw [← formatSpecReplace_parts pre rest datePlaceholder dateMark 'F']
  rfl

/-- The loop of `output_name_date_replace`, from any place of the string on. -/
theorem dateLoop_fill (ht : some dateMark ∉ t) :
    dateLoop room (.parts pre (fill [dateMark, 'F'] t)) offsets =
      if room < t.count none then .error .fileNameTooLong
      else .ok (pre ++ fill datePlaceholder t,
        offsets ++ holes datePlaceholder.length pre.length t) := by
  induction t generalizing room pre offsets with
  | nil =>
    have hfind : find [dateMark, 'F'] [] = none := rfl
    unfold dateLoop
    simp only [fill_nil, drop_parts, hfind, List.count_nil, Nat.not_lt_zero, if_false, holes,
      List.append_nil]
    simp [Rewriting.parts]
  | cons o t ih =>
    obtain ⟨hne, hmem⟩ := List.ne_and_not_mem_of_not_mem_cons ht
    cases o with
    | none =>
      cases room with
      | zero =>
        rw [fill_none, if_pos (by simp)]
        exact dateLoop_mark_zero _ _
      | succ room =>
        have hmark : dateLoop (room + 1) (.parts pre (fill [dateMark, 'F'] (none :: t))) offsets =
            dateLoop room (.parts (pre ++ datePlaceholder) (fill [dateMark, 'F'] t))
              (offsets ++ [pre.length]) := dateLoop_mark _ _
        rw [hmark, ih hmem]
        simp [holes]
    | some a =>
      have hskip : dateMark ∉ [a] := by simpa using hne
      have happend : dateLoop room (.parts pre (fill [dateMark, 'F'] (some a :: t))) offsets =
          dateLoop room (.parts (pre ++ [a]) (fill [dateMark, 'F'] t)) offsets :=
        dateLoop_append hskip
      rw [happend, ih hmem]
      simp [holes]

theorem length_datePlaceholder : datePlaceholder.length = 10 := by decide

theorem dailyOverwrite_fill {date' : List Char} (h : date.length = 10) (h' : date'.length = 10) :
    dailyOverwrite (holes 10 0 t) (fill date t) date' = fill date' t := by
  have hfill := overwrite_holes (h'.trans h.symm) [] t
  rwa [h] at hfill

theorem foldl_dailyOverwrite (dates : List (List Char)) (hdates : ∀ d ∈ dates, d.length = 10)
    (h : rep.length = 10) (h' : date.length = 10) :
    (dates ++ [date]).foldl (dailyOverwrite (holes 10 0 t)) (fill rep t) = fill date t := by
  induction dates generalizing rep with
  | nil => exact dailyOverwrite_fill h h'
  | cons d dates ih =>
    obtain ⟨hd, hrest⟩ := List.forall_mem_cons.1 hdates
    rw [List.cons_append, List.foldl_cons, dailyOverwrite_fill h hd]
    exact ih hrest hd

theorem snprintf_queueString {queueId : ℤ} (h : queueId < 100000) :
    snprintf 12 (queueString queueId) = queueString queueId := by
  apply List.take_of_length_le
  unfold queueString
  split_ifs with hpos
  · have hdigits : (Nat.toDigits 10 queueId.toNat).length ≤ 5 :=
      (Nat.length_toDigits_le_iff (by decide) (by decide)).2 (by omega)
    simp only [List.length_append]
    exact Nat.add_le_add_left hdigits 6
  · decide

theorem dateMark_notMem_queueString (queueId : ℤ) : dateMark ∉ queueString queueId := by
  unfold queueString
  split_ifs with hpos
  · intro hmem
    rcases List.mem_append.1 hmem with hmem | hmem
    · revert hmem
      decide
    · have hdigit := Nat.isDigit_of_mem_toDigits (by decide) (by decide) hmem
      revert hdigit
      decide
  · decide

theorem dateMark_notMem_directive {piece : List (Option Char)} (hdev : dateMark ∉ dev)
    (hqueue : dateMark ∉ queue) (h : directive dev queue d = some piece) :
    some dateMark ∉ piece := by
  unfold directive at h
  split at h
  · obtain rfl := Option.some.inj h
    simpa using hdev
  · obtain rfl := Option.some.inj h
    simpa using hqueue
  · obtain rfl := Option.some.inj h
    simp
  · obtain rfl := Option.some.inj h
    decide
  · cases h

theorem dateMark_notMem_expand (hdev : dateMark ∉ dev) (hqueue : dateMark ∉ queue)
    (htemplate : dateMark ∉ rest) : some dateMark ∉ expand dev queue rest := by
  induction rest using expand.induct dev queue with
  | case1 => exact List.not_mem_nil
  | case2 c => simpa [expand] using htemplate
  | case3 d rest piece hdirective ih =>
    have hpiece := dateMark_notMem_directive hdev hqueue hdirective
    have hrest := ih fun hmem ↦ htemplate (List.mem_cons_of_mem _ (List.mem_cons_of_mem _ hmem))
    simp only [expand, hdirective, List.mem_append, not_or]
    exact ⟨hpiece, hrest⟩
  | case4 c d rest hother ih =>
    obtain ⟨hne, hmem⟩ := List.ne_and_not_mem_of_not_mem_cons htemplate
    rw [expand_of_not_directive hother]
    exact List.not_mem_cons_of_ne_of_not_mem (fun h ↦ hne (Option.some.inj h)) (ih hmem)

end

/-- The output name of a template: what `output_name_format`, `output_name_date_replace` and the
overwrites of the days to come make of it. -/
theorem outputName_expands {template : List Char} (fuel : ℕ) (opt : NameOptions)
    (hname : opt.outputName = some template) (hne : template ≠ [])
    (htemplate : dateMark ∉ template) (hdev : dateMark ∉ opt.devName)
    (hqueue : opt.queueId < 100000) (hfuel : template.length < fuel) :
    ∃ mode name, outputNameFormat fuel opt = some (.ok (mode, some name)) ∧
      mode = (if none ∈ opt.expansion template then .fileByDay else .singleFile) ∧
      (mode = .singleFile → ∀ date, name = fill date (opt.expansion template)) ∧
      (25 < (opt.expansion template).count none →
        outputNameDateReplace name = .error .fileNameTooLong) ∧
      ((opt.expansion template).count none ≤ 25 →
        ∃ dated offsets, outputNameDateReplace name = .ok (dated, offsets) ∧
          ∀ (dates : List (List Char)) (date : List Char),
            (∀ d ∈ dates, d.length = 10) → date.length = 10 →
            (dates ++ [date]).foldl (dailyOverwrite offsets) dated =
              fill date (opt.expansion template)) := by
  have hmark : some dateMark ∉ opt.expansion template :=
    dateMark_notMem_expand hdev (dateMark_notMem_queueString _) htemplate
  have hcount : template.count '%' < fuel := List.count_le_length.trans_lt hfuel
  have hloop : formatLoop opt fuel (.parts [] template) .singleFile =
      some (if none ∈ opt.expansion template then .fileByDay else .singleFile,
        fill [dateMark, 'F'] (opt.expansion template)) :=
    formatLoop_expand (snprintf_queueString hqueue) hcount
  have hreplace : dateLoop numOffsets (.parts [] (fill [dateMark, 'F'] (opt.expansion template))) [] =
      if numOffsets < (opt.expansion template).count none then .error .fileNameTooLong
      else .ok ([] ++ fill datePlaceholder (opt.expansion template),
        [] ++ holes datePlaceholder.length 0 (opt.expansion template)) :=
    dateLoop_fill hmark
  have hlength : ¬template.length = 0 := fun h ↦ hne (List.length_eq_zero_iff.1 h)
  have hformat : outputNameFormat fuel opt =
      some (.ok (if none ∈ opt.expansion template then .fileByDay else .singleFile,
        some (fill [dateMark, 'F'] (opt.expansion template)))) := by
    simp only [outputNameFormat, hname, if_neg hlength]
    exact congrArg (Option.map _) hloop
  refine ⟨_, _, hformat, rfl, fun hmode date ↦ ?_, fun hmany ↦ ?_, fun hfew ↦ ?_⟩
  · refine fill_of_none_notMem (fun hhole ↦ ?_) _ _
    rw [if_pos hhole] at hmode
    cases hmode
  · exact hreplace.trans (if_pos hmany)
  · refine ⟨_, _, hreplace.trans (if_neg (not_lt.2 hfew)), fun dates date hdates hdate ↦ ?_⟩
    exact foldl_dailyOverwrite dates hdates length_datePlaceholder hdate

/-- `-q 3 -o %D-%Q-%F eth0`. -/
def queueReport : NameOptions := ⟨"eth0".toList, some "%D-%Q-%F".toList, 3⟩

theorem outputName_expands_queueReport :
    ∃ mode name dated offsets, outputNameFormat 20 queueReport = some (.ok (mode, some name)) ∧
      outputNameDateReplace name = .ok (dated, offsets) ∧
      ["2024-02-29".toList, "2024-03-01".toList].foldl (dailyOverwrite offsets) dated =
        "eth0-queue-3-2024-03-01".toList := by
  obtain ⟨mode, name, hformat, -, -, -, hfew⟩ := outputName_expands 20 queueReport rfl
    (by decide) (by decide) (by decide) (by decide) (by decide)
  obtain ⟨dated, offsets, hreplace, hdays⟩ := hfew (by decide)
  refine ⟨mode, name, dated, offsets, hformat, hreplace, ?_⟩
  exact hdays ["2024-02-29".toList] "2024-03-01".toList (by decide) (by decide)

end Dpa.Tools.OutputName
