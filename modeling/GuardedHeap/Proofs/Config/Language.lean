import GuardedHeap.Proofs.Config.Options

/-! # The language of options — which configuration a text describes

    A text is some tokens with gaps between them (`Written`), and the
    tokens are found again (`tokens_eq_iff`).  A token is right if it sets an
    option to something that its value spells, and else wrong in one of
    three ways (`applyToken_eq_ok`, `applyToken_eq_error`).  Right tokens
    describe a configuration: for each option the last one counts, and an
    option without a token stays as it was (`Describes`).  `parse_language`
    puts together what a text is read as. -/

namespace GuardedHeap

namespace Config

variable {c c₀ d : Config} {f g : Field} {e : ConfigError} {t key value text : List Char}
  {ts before after : List (List Char)}

/-! ## Tokens of a text -/

/-- A text consists of tokens, which have no separators, and of gaps before, between and behind them, which are
    nothing but separators; those between tokens are not empty. -/
inductive Written : List (List Char) → List Char → Prop where
  | gap {gap : List Char} (hgap : ∀ c ∈ gap, isSeparator c = true) : Written [] gap
  | token {gap t rest : List Char} {ts : List (List Char)} (hgap : ∀ c ∈ gap, isSeparator c = true)
      (hne : t ≠ []) (htoken : ∀ c ∈ t, isSeparator c = false) (hend : ∀ c ∈ rest.head?, isSeparator c = true)
      (hrest : Written ts rest) : Written (t :: ts) (gap ++ t ++ rest)

/-- A separator is no part of a token. -/
theorem tokens_cons_separator {b : Char} (hb : isSeparator b = true) : tokens (b :: text) = tokens text := by
  unfold tokens
  rw [if_pos hb]
  cases text <;> rfl

/-- A token ends before a separator. -/
theorem tokens_cons_end {b : Char} (hb : isSeparator b = false) (hend : ∀ c ∈ text.head?, isSeparator c = true) :
    tokens (b :: text) = [b] :: tokens text := by
  rw [tokens.eq_def]
  dsimp only
  rw [if_neg (by rw [hb]; decide)]
  cases text with
  | nil => rfl
  | cons c rest =>
      dsimp only
      rw [if_pos (hend c rfl)]

/-- Other characters belong to one token. -/
theorem tokens_cons_cons {b b' : Char} (hb : isSeparator b = false) (hb' : isSeparator b' = false)
    (hnext : tokens (b' :: text) = t :: ts) : tokens (b :: b' :: text) = (b :: t) :: ts := by
  rw [tokens.eq_def]
  dsimp only
  rw [if_neg (by rw [hb]; decide), if_neg (by rw [hb']; decide), hnext]

theorem tokens_gap {gap : List Char} (hgap : ∀ c ∈ gap, isSeparator c = true) (rest : List Char) :
    tokens (gap ++ rest) = tokens rest := by
  induction gap with
  | nil => rfl
  | cons b gap ih =>
      obtain ⟨hb, hgap⟩ := List.forall_mem_cons.mp hgap
      rw [List.cons_append, tokens_cons_separator hb, ih hgap]

theorem tokens_token {rest : List Char} (hne : t ≠ []) (htoken : ∀ c ∈ t, isSeparator c = false)
    (hend : ∀ c ∈ rest.head?, isSeparator c = true) : tokens (t ++ rest) = t :: tokens rest := by
  induction t with
  | nil => exact absurd rfl hne
  | cons b t ih =>
      obtain ⟨hb, htoken⟩ := List.forall_mem_cons.mp htoken
      cases t with
      | nil => exact tokens_cons_end hb hend
      | cons b' t =>
          obtain ⟨hb', -⟩ := List.forall_mem_cons.mp htoken
          exact tokens_cons_cons hb hb' (ih (List.cons_ne_nil _ _) htoken)

theorem Written.tokens_eq (h : Written ts text) : tokens text = ts := by
  induction h with
  | @gap gap hgap =>
      have hall := tokens_gap hgap []
      rwa [List.append_nil] at hall
  | token hgap hne htoken hend _ ih => rw [List.append_assoc, tokens_gap hgap, tokens_token hne htoken hend, ih]

theorem Written.cons_separator {b : Char} (hb : isSeparator b = true) (h : Written ts text) :
    Written ts (b :: text) := by
  cases h with
  | gap hgap => exact .gap (List.forall_mem_cons.mpr ⟨hb, hgap⟩)
  | token hgap hne htoken hend hrest =>
      exact @Written.token (b :: _) _ _ _ (List.forall_mem_cons.mpr ⟨hb, hgap⟩) hne htoken hend hrest

/-- Every text is written like that. -/
theorem written_tokens (text : List Char) : Written (tokens text) text := by
  induction text with
  | nil => exact .gap (List.forall_mem_nil _)
  | cons b text ih =>
      by_cases hb : isSeparator b = true
      · rw [tokens_cons_separator hb]
        exact ih.cons_separator hb
      rw [Bool.not_eq_true] at hb
      by_cases hend : ∀ c ∈ text.head?, isSeparator c = true
      · rw [tokens_cons_end hb hend]
        exact @Written.token [] _ _ _ (List.forall_mem_nil _) (List.cons_ne_nil _ _)
          (List.forall_mem_singleton.mpr hb) hend ih
      -- The text goes on with the token, which begins without a gap.
      cases text with
      | nil => exact absurd nofun hend
      | cons b' text =>
          have hb' : isSeparator b' = false := by simpa using hend
          generalize htokens : tokens (b' :: text) = ts at ih
          generalize htext : b' :: text = text' at ih
          cases ih with
          | gap hgap =>
              subst htext
              rw [hgap b' (List.mem_cons_self ..)] at hb'
              exact nomatch hb'
          | @token gap t rest ts hgap hne htoken hend hrest =>
              rw [← htext, tokens_cons_cons hb hb' htokens, htext]
              cases gap with
              | cons b'' gap =>
                  obtain ⟨rfl, -⟩ := List.cons.inj htext
                  rw [hgap _ (List.mem_cons_self ..)] at hb'
                  exact nomatch hb'
              | nil =>
                  exact @Written.token [] (b :: t) _ _ (List.forall_mem_nil _) (List.cons_ne_nil _ _)
                    (List.forall_mem_cons.mpr ⟨hb, htoken⟩) hend hrest

theorem tokens_eq_iff : tokens text = ts ↔ Written ts text :=
  ⟨fun h => h ▸ written_tokens text, Written.tokens_eq⟩

/-! ## One token -/

theorem splitToken_eq_some : splitToken t = some (key, value) ↔ t = key ++ '=' :: value ∧ '=' ∉ key := by
  induction t generalizing key with
  | nil => exact ⟨nofun, fun h => absurd h.1.symm (List.append_ne_nil_of_right_ne_nil _ (List.cons_ne_nil _ _))⟩
  | cons b rest ih =>
      unfold splitToken
      by_cases hb : b = '='
      · subst hb
        rw [if_pos rfl, Option.some.injEq, Prod.mk.injEq]
        cases key with
        | nil => simp
        | cons b' key =>
            refine iff_of_false (fun h => nomatch h.1) fun ⟨heq, hkey⟩ => hkey ?_
            obtain ⟨rfl, -⟩ := List.cons.inj heq
            exact List.mem_cons_self ..
      · rw [if_neg hb, Option.map_eq_some_iff]
        constructor
        · rintro ⟨⟨key', value'⟩, hsplit, heq⟩
          obtain ⟨rfl, rfl⟩ := Prod.mk.inj heq
          obtain ⟨rfl, hkey⟩ := ih.mp hsplit
          exact ⟨rfl, fun h => (List.mem_cons.mp h).elim (Ne.symm hb) hkey⟩
        · rintro ⟨heq, hkey⟩
          cases key with
          | nil => exact absurd (List.cons.inj heq).1 hb
          | cons b' key =>
              obtain ⟨rfl, rfl⟩ := List.cons.inj heq
              exact ⟨(key, value), ih.mpr ⟨rfl, fun h => hkey (List.mem_cons_of_mem _ h)⟩, rfl⟩

theorem splitToken_eq_none : splitToken t = none ↔ '=' ∉ t := by
  induction t with
  | nil => exact iff_of_true rfl List.not_mem_nil
  | cons b rest ih =>
      unfold splitToken
      by_cases hb : b = '='
      · subst hb
        rw [if_pos rfl]
        exact iff_of_false nofun fun h => h (List.mem_cons_self ..)
      · rw [if_neg hb, Option.map_eq_none_iff, ih, List.mem_cons, not_or]
        exact (and_iff_right (Ne.symm hb)).symm

/-- The token that gives an option a value. -/
def assign (key : String) (value : List Char) : List Char :=
  key.toList ++ '=' :: value

/-- The token sets the option. -/
def Field.Named (f : Field) (t : List Char) : Prop :=
  ∃ value, t = assign f.key value

/-- The token sets an option to what its value spells. -/
def Right (t : List Char) : Prop :=
  ∃ f ∈ options, ∃ value v, t = assign f.key value ∧ f.kind.Spells value v

/-- Other tokens are wrong, and this is the error. -/
inductive Wrong : List Char → ConfigError → Prop where
  /-- Nothing is assigned, … -/
  | malformed {t : List Char} (h : '=' ∉ t) : Wrong t (.malformed (String.ofList t))
  /-- … or what stands before the first equals sign names no option, … -/
  | unknownOption {key value : List Char} (hkey : '=' ∉ key) (h : ∀ f ∈ options, f.key ≠ String.ofList key) :
      Wrong (key ++ '=' :: value) (.unknownOption (String.ofList key))
  /-- … or what stands behind it spells no value for the option. -/
  | invalidValue {f : Field} {value : List Char} (hf : f ∈ options) (h : ∀ v, ¬ f.kind.Spells value v) :
      Wrong (assign f.key value) (.invalidValue f.key (String.ofList value))

theorem splitToken_assign (hf : f ∈ options) (value : List Char) :
    splitToken (assign f.key value) = some (f.key.toList, value) :=
  splitToken_eq_some.mpr ⟨rfl, notMem_key hf⟩

/-- A token sets one option. -/
theorem assign_inj {value' : List Char} (hf : f ∈ options) (hg : g ∈ options)
    (h : assign f.key value = assign g.key value') : f = g ∧ value = value' := by
  have hsplit := splitToken_assign hf value
  rw [h, splitToken_assign hg] at hsplit
  obtain ⟨hkey, hvalue⟩ := Prod.mk.inj (Option.some.inj hsplit)
  exact ⟨eq_of_key hf hg (String.toList_inj.mp hkey.symm), hvalue.symm⟩

theorem applyToken_assign (hf : f ∈ options) (value : List Char) :
    c.applyToken (assign f.key value) = (f.kind.read f.key (String.ofList value)).map (f.put c) := by
  unfold applyToken
  rw [splitToken_assign hf]
  dsimp only
  rw [String.ofList_toList, set_eq hf]

/-- The error of a wrong token is told, whatever the configuration is. -/
theorem Wrong.applyToken_eq (h : Wrong t e) (c : Config) : c.applyToken t = .error e := by
  cases h with
  | malformed h =>
      unfold applyToken
      rw [splitToken_eq_none.mpr h]
  | @unknownOption key value hkey h =>
      unfold applyToken
      rw [splitToken_eq_some.mpr ⟨rfl, hkey⟩]
      exact set_of_unknown h _
  | @invalidValue f value hf h =>
      rw [applyToken_assign hf]
      cases hread : f.kind.read f.key (String.ofList value) with
      | error e =>
          rw [OptionKind.read_eq_error hread]
          rfl
      | ok v =>
          have hspells := OptionKind.read_eq_ok.mp hread
          rw [String.toList_ofList] at hspells
          exact absurd hspells (h v)

/-- A token that spells a value for an option sets it. -/
theorem applyToken_of_spells (hf : f ∈ options) {v : f.kind.Carrier} (hv : f.kind.Spells value v) (c : Config) :
    c.applyToken (assign f.key value) = .ok (f.put c v) := by
  rw [← String.toList_ofList (l := value)] at hv
  rw [applyToken_assign hf, OptionKind.read_eq_ok.mpr hv]
  rfl

/-- A token is right or wrong. -/
theorem right_or_wrong (t : List Char) : Right t ∨ ∃ e, Wrong t e := by
  cases hsplit : splitToken t with
  | none => exact .inr ⟨_, .malformed (splitToken_eq_none.mp hsplit)⟩
  | some parts =>
      obtain ⟨key, value⟩ := parts
      obtain ⟨rfl, hkey⟩ := splitToken_eq_some.mp hsplit
      by_cases hknown : ∃ f ∈ options, f.key = String.ofList key
      · obtain ⟨f, hf, hname⟩ := hknown
        have hassign : key ++ '=' :: value = assign f.key value := by
          unfold assign
          rw [hname, String.toList_ofList]
        rw [hassign]
        by_cases hspells : ∃ v, f.kind.Spells value v
        · obtain ⟨v, hv⟩ := hspells
          exact .inl ⟨f, hf, value, v, rfl, hv⟩
        · exact .inr ⟨_, .invalidValue hf (not_exists.mp hspells)⟩
      · exact .inr ⟨_, .unknownOption hkey fun f hf hname => hknown ⟨f, hf, hname⟩⟩

/-! ## All tokens -/

/-- Right tokens describe the configuration: of several tokens for an option the last one spells its value, and
    an option without any is as it was before. -/
structure Describes (c₀ : Config) (ts : List (List Char)) (c : Config) : Prop where
  right : ∀ t ∈ ts, Right t
  last : ∀ {f before value after}, f ∈ options → ts = before ++ assign f.key value :: after →
    (∀ t ∈ after, ¬ f.Named t) → f.kind.Spells value (f.get c)
  kept : ∀ {f}, f ∈ options → (∀ t ∈ ts, ¬ f.Named t) → f.get c = f.get c₀

/-- Of the tokens that set an option there is a last one. -/
theorem exists_last (h : ∃ t ∈ ts, f.Named t) :
    ∃ before value after, ts = before ++ assign f.key value :: after ∧ ∀ t ∈ after, ¬ f.Named t := by
  induction ts with
  | nil => exact absurd h (by rintro ⟨t, ht, -⟩; exact nomatch ht)
  | cons t ts ih =>
      by_cases hlater : ∃ t ∈ ts, f.Named t
      · obtain ⟨before, value, after, rfl, hafter⟩ := ih hlater
        exact ⟨t :: before, value, after, rfl, hafter⟩
      · obtain ⟨u, hu, value, rfl⟩ := h
        have hnone : ∀ t ∈ ts, ¬ f.Named t := fun t ht hnamed => hlater ⟨t, ht, hnamed⟩
        rcases List.mem_cons.mp hu with rfl | hu
        · exact ⟨[], value, ts, rfl, hnone⟩
        · exact absurd ⟨value, rfl⟩ (hnone _ hu)

/-- Tokens describe one configuration. -/
theorem Describes.unique (hc : Describes c₀ ts c) (hd : Describes c₀ ts d) : c = d := by
  refine ext_get fun f hf => ?_
  by_cases hnamed : ∃ t ∈ ts, f.Named t
  · obtain ⟨before, value, after, hts, hafter⟩ := exists_last hnamed
    exact (hc.last hf hts hafter).unique (hd.last hf hts hafter)
  · have hnone : ∀ t ∈ ts, ¬ f.Named t := fun t ht h => hnamed ⟨t, ht, h⟩
    exact (hc.kept hf hnone).trans (hd.kept hf hnone).symm

/-- A token that sets an option is described by those behind it, if they set the option too. -/
theorem Describes.cons (hf : f ∈ options) {v : f.kind.Carrier} (hv : f.kind.Spells value v)
    (h : Describes (f.put c₀ v) ts c) : Describes c₀ (assign f.key value :: ts) c where
  right := List.forall_mem_cons.mpr ⟨⟨f, hf, value, v, rfl, hv⟩, h.right⟩
  last := by
    intro g before value' after hg hts hafter
    cases before with
    | nil =>
        obtain ⟨hassign, rfl⟩ := List.cons.inj hts
        obtain ⟨rfl, rfl⟩ := assign_inj hf hg hassign
        rw [h.kept hf hafter, get_put hf]
        exact hv
    | cons t before =>
        obtain ⟨-, hts⟩ := List.cons.inj hts
        exact h.last hg hts hafter
  kept := by
    intro g hg hnone
    obtain ⟨hfirst, hnone⟩ := List.forall_mem_cons.mp hnone
    have hne : g.key ≠ f.key := fun heq => hfirst ⟨value, by rw [heq]⟩
    rw [h.kept hg hnone, get_put_of_ne hf hg hne]

/-- Right tokens are all applied, and give the configuration that they describe. -/
theorem applyTokens_right (c₀ : Config) (h : ∀ t ∈ ts, Right t) :
    ∃ c, c₀.applyTokens ts = (c, none) ∧ Describes c₀ ts c := by
  induction ts generalizing c₀ with
  | nil => exact ⟨c₀, rfl, List.forall_mem_nil _, fun _ hts => absurd hts.symm (by simp), fun _ _ => rfl⟩
  | cons t ts ih =>
      obtain ⟨⟨f, hf, value, v, rfl, hv⟩, hrest⟩ := List.forall_mem_cons.mp h
      obtain ⟨c, happly, hdescribes⟩ := ih (f.put c₀ v) hrest
      refine ⟨c, ?_, hdescribes.cons hf hv⟩
      rw [applyTokens, applyToken_of_spells hf hv]
      exact happly

/-- The first wrong token ends it. -/
theorem applyTokens_wrong (c₀ : Config) (hbefore : ∀ t ∈ before, Right t) (h : Wrong t e) :
    ∃ c, c₀.applyTokens (before ++ t :: after) = (c, some e) := by
  induction before generalizing c₀ with
  | nil =>
      refine ⟨c₀, ?_⟩
      rw [List.nil_append, applyTokens, h.applyToken_eq]
  | cons u before ih =>
      obtain ⟨⟨f, hf, value, v, rfl, hv⟩, hrest⟩ := List.forall_mem_cons.mp hbefore
      obtain ⟨c, hc⟩ := ih (f.put c₀ v) hrest
      refine ⟨c, ?_⟩
      rw [List.cons_append, applyTokens, applyToken_of_spells hf hv]
      exact hc

/-- A list has a first wrong token, or none. -/
theorem all_right_or_first_wrong (ts : List (List Char)) : (∀ t ∈ ts, Right t)
    ∨ ∃ before t after e, ts = before ++ t :: after ∧ (∀ u ∈ before, Right u) ∧ Wrong t e := by
  induction ts with
  | nil => exact .inl (List.forall_mem_nil _)
  | cons t ts ih =>
      rcases right_or_wrong t with hright | ⟨e, hwrong⟩
      · rcases ih with hall | ⟨before, u, after, e, rfl, hbefore, hwrong⟩
        · exact .inl (List.forall_mem_cons.mpr ⟨hright, hall⟩)
        · exact .inr ⟨t :: before, u, after, e, rfl, List.forall_mem_cons.mpr ⟨hright, hbefore⟩, hwrong⟩
      · exact .inr ⟨[], t, ts, e, rfl, List.forall_mem_nil _, hwrong⟩

/-! ## All of a text -/

/-- A text is read as the configuration that its tokens describe, if that one is valid. -/
theorem parse_eq_ok {options : String} (hwritten : Written ts options.toList) :
    parse options = .ok c ↔ c.validate = .ok () ∧ Describes {} ts c := by
  unfold parse apply
  rw [hwritten.tokens_eq]
  rcases all_right_or_first_wrong ts with hall | ⟨before, t, after, e, rfl, hbefore, hwrong⟩
  · obtain ⟨d, happly, hdescribes⟩ := applyTokens_right {} hall
    rw [happly]
    dsimp only
    cases hvalid : d.validate with
    | ok =>
        constructor
        · intro h
          obtain rfl := Except.ok.inj h
          exact ⟨hvalid, hdescribes⟩
        · rintro ⟨-, h⟩
          rw [hdescribes.unique h]
          rfl
    | error e =>
        refine ⟨nofun, fun ⟨hc, h⟩ => ?_⟩
        rw [← hdescribes.unique h, hvalid] at hc
        exact nomatch hc
  · obtain ⟨d, happly⟩ := applyTokens_wrong {} hbefore hwrong
    rw [happly]
    refine ⟨nofun, fun ⟨_, h⟩ => ?_⟩
    obtain ⟨f, hf, value, v, rfl, hv⟩ := h.right t (List.mem_append_right _ (List.mem_cons_self ..))
    have hok := applyToken_of_spells hf hv {}
    rw [hwrong.applyToken_eq] at hok
    exact nomatch hok

/-- Of a text with a wrong token, the error of the first one is told. -/
theorem parse_eq_error {options : String} (hwritten : Written (before ++ t :: after) options.toList)
    (hbefore : ∀ u ∈ before, ∀ e, ¬ Wrong u e) (h : Wrong t e) : parse options = .error e := by
  have hright : ∀ u ∈ before, Right u := fun u hu =>
    (right_or_wrong u).resolve_right (not_exists.mpr (hbefore u hu))
  obtain ⟨d, happly⟩ : ∃ d, applyTokens {} (before ++ t :: after) = (d, some e) := applyTokens_wrong {} hright h
  unfold parse apply
  rw [hwritten.tokens_eq, happly]

/-- Every text consists of tokens and gaps.  It is read as a configuration exactly if this one is valid and the
    tokens describe it; and if one of them is wrong the error is that of the first one, valid or not. -/
theorem parse_language :
    (∀ options : String, ∃ ts, Written ts options.toList)
    ∧ (∀ {options : String} {ts}, Written ts options.toList → ∀ c,
      parse options = .ok c ↔ c.validate = .ok () ∧ Describes {} ts c)
    ∧ ∀ {options : String} {before t after e}, Written (before ++ t :: after) options.toList →
      (∀ u ∈ before, ∀ e, ¬ Wrong u e) → Wrong t e → parse options = .error e :=
  ⟨fun _ => ⟨_, written_tokens _⟩, fun hwritten _ => parse_eq_ok hwritten, parse_eq_error⟩

/-- Six tokens, two of them for the same option; and a number that is too large, before a token that is
    malformed and behind a redzone that no heap can have. -/
theorem parse_language_examples :
    (∃ ts c, Written ts
        ",redzone=64:quarantine_size=0X00100000, halt_on_free_error=No\tverbosity=2 exitcode=-3 redzone=00256::".toList
      ∧ c.validate = .ok () ∧ Describes {} ts c ∧ c.redzone = 256 ∧ c.quarantineSize = 1048576
      ∧ c.haltOnFreeError = false ∧ c.verbosity = 2 ∧ c.exitcode = -3)
    ∧ parse "redzone=48 verbosity=0x100000000,bogus" = .error (.invalidValue "verbosity" "0x100000000") := by
  constructor
  · obtain ⟨ts, hwritten⟩ := parse_language.1
      ",redzone=64:quarantine_size=0X00100000, halt_on_free_error=No\tverbosity=2 exitcode=-3 redzone=00256::"
    have hparse : parse
        ",redzone=64:quarantine_size=0X00100000, halt_on_free_error=No\tverbosity=2 exitcode=-3 redzone=00256::" =
        .ok { redzone := 256, quarantineSize := 1048576, haltOnFreeError := false, verbosity := 2,
              exitcode := -3 } := by
      decide +kernel
    obtain ⟨hvalid, hdescribes⟩ := (parse_language.2.1 hwritten _).mp hparse
    exact ⟨ts, _, hwritten, hvalid, hdescribes, rfl, rfl, rfl, rfl, rfl⟩
  · have hwritten : Written (["redzone=48".toList] ++ "verbosity=0x100000000".toList :: ["bogus".toList])
        "redzone=48 verbosity=0x100000000,bogus".toList := tokens_eq_iff.mp (by decide +kernel)
    refine parse_language.2.2 hwritten (List.forall_mem_singleton.mpr fun e hwrong => ?_) ?_
    · have hok : applyToken {} "redzone=48".toList = .ok { redzone := 48 } := by decide +kernel
      rw [hwrong.applyToken_eq] at hok
      exact nomatch hok
    · refine @Wrong.invalidValue options[12] "0x100000000".toList (List.getElem_mem _) fun v hv => ?_
      have hread : readNat Word.halfLimit "verbosity" "0x100000000" =
        .error (.invalidValue "verbosity" "0x100000000") := by decide +kernel
      have hok : readNat Word.halfLimit "verbosity" "0x100000000" = .ok v := OptionKind.readNat_eq_ok.mpr hv
      rw [hread] at hok
      exact nomatch hok

end Config

end GuardedHeap
