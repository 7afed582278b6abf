import SpotWire.Proofs.Channel.Name

/-!
# Arguments in normal form

A symbol is normal once it ends with its suffix, levels once they are named, and an interval once it
is one of the exchange's tokens. A channel depends on the normal forms of its arguments alone
(`ofFeed_congr`), and each normal form is its own, so that nothing changes when arguments are
translated before they are handed over. Symbols of one normal form differ by one suffix at most.
-/

namespace SpotWire

namespace Symbol

/-- A symbol that has the suffix at its end. -/
def IsNormal (suffix symbol : String) : Prop :=
  suffix.toList <:+ symbol.toList

variable {suffix symbol first second : String}

theorem normalize_of_isNormal (h : IsNormal suffix symbol) : normalize suffix symbol = symbol := by
  rw [normalize, if_pos (List.isSuffixOf_iff_suffix.mpr h)]

theorem normalize_of_not_isNormal (h : ¬IsNormal suffix symbol) :
    normalize suffix symbol = symbol ++ suffix := by
  have hends : ¬suffix.toList.isSuffixOf symbol.toList = true := by
    rwa [List.isSuffixOf_iff_suffix]
  rw [normalize, if_neg hends]

theorem isNormal_append (suffix symbol : String) : IsNormal suffix (symbol ++ suffix) := by
  rw [IsNormal, String.toList_append]
  exact List.suffix_append symbol.toList suffix.toList

theorem isNormal_normalize (suffix symbol : String) :
    IsNormal suffix (normalize suffix symbol) := by
  by_cases h : IsNormal suffix symbol
  · rwa [normalize_of_isNormal h]
  · rw [normalize_of_not_isNormal h]
    exact isNormal_append suffix symbol

@[simp]
theorem normalize_normalize (suffix symbol : String) :
    normalize suffix (normalize suffix symbol) = normalize suffix symbol :=
  normalize_of_isNormal (isNormal_normalize suffix symbol)

theorem append_suffix_inj : first ++ suffix = second ++ suffix ↔ first = second := by
  simp only [← String.toList_inj, String.toList_append, List.append_cancel_right_eq]

/-- Nothing is known of the suffix: it may be empty, and overlap itself. So whether a symbol has it
at its end is asked of the symbol that would get it. -/
theorem normalize_eq_iff :
    normalize suffix first = normalize suffix second ↔
      first = second ∨ (first = second ++ suffix ∧ ¬IsNormal suffix second) ∨
        (second = first ++ suffix ∧ ¬IsNormal suffix first) := by
  by_cases hfirst : IsNormal suffix first
  · rw [normalize_of_isNormal hfirst]
    by_cases hsecond : IsNormal suffix second
    · rw [normalize_of_isNormal hsecond]
      simp [hfirst, hsecond]
    · rw [normalize_of_not_isNormal hsecond]
      constructor
      · intro h
        exact .inr (.inl ⟨h, hsecond⟩)
      · rintro (rfl | ⟨h, -⟩ | ⟨-, h⟩)
        · exact absurd hfirst hsecond
        · exact h
        · exact absurd hfirst h
  · rw [normalize_of_not_isNormal hfirst]
    by_cases hsecond : IsNormal suffix second
    · rw [normalize_of_isNormal hsecond]
      constructor
      · intro h
        exact .inr (.inr ⟨h.symm, hfirst⟩)
      · rintro (rfl | ⟨-, h⟩ | ⟨h, -⟩)
        · exact absurd hsecond hfirst
        · exact absurd hsecond h
        · exact h.symm
    · rw [normalize_of_not_isNormal hsecond, append_suffix_inj]
      constructor
      · exact Or.inl
      · rintro (h | ⟨rfl, -⟩ | ⟨rfl, -⟩)
        · exact h
        · exact absurd (isNormal_append suffix second) hfirst
        · exact absurd (isNormal_append suffix first) hsecond

end Symbol

namespace Interval

/-- No token is a time frame, so that a token is passed on as it is. -/
theorem token?_token (interval : Option String) : token? (token interval) = none := by
  rcases token_mem_or_passed interval with hmem | ⟨frame, -, hnone, htoken⟩
  · have htokens : ∀ token ∈ tokens, token? token = none := by decide
    exact htokens _ hmem
  · rwa [htoken]

@[simp]
theorem token_token (interval : Option String) :
    token (some (token interval)) = token interval := by
  rw [token, Option.getD_some, token?_token, Option.getD_none]

end Interval

namespace Channel

variable {suffix : String} {symbol symbol' : Option String} {params params' : ChannelParams}

theorem fillings_congr (kind : FeedKind) (symbol : String)
    (hlevels : levels params = levels params')
    (htoken : Interval.token params.interval = Interval.token params'.interval) :
    fillings kind symbol params = fillings kind symbol params' := by
  cases kind with
  | depth => rw [fillings, fillings, hlevels]
  | kline => rw [fillings, fillings, htoken]
  | ticker | trades | account | orders | fill => rfl

/-- Arguments of the same normal forms come to the same channel, or to the same fault. -/
theorem ofFeed_congr (kind : FeedKind)
    (hsymbol : symbol.map (Symbol.normalize suffix) = symbol'.map (Symbol.normalize suffix))
    (hlevels : levels params = levels params')
    (htoken : Interval.token params.interval = Interval.token params'.interval) :
    ofFeed suffix kind symbol params = ofFeed suffix kind symbol' params' := by
  unfold ofFeed
  split
  · rfl
  · cases symbol with
    | none =>
        obtain rfl := Option.map_eq_none_iff.mp hsymbol.symm
        rfl
    | some text =>
        obtain ⟨text', rfl, htext⟩ := Option.map_eq_some_iff.mp hsymbol.symm
        simp only [htext, fillings_congr kind _ hlevels htoken]

/-- **Normal arguments.** A normalised symbol ends with the suffix and stays as it is when it is
normalised again. Two symbols are normalised alike exactly if they are the same, or if one is the
other one with the suffix, which the other one does not have at its end. Channels are the same when
symbol, levels or interval are given in normal form, each by itself or all together. -/
theorem normal_arguments_are_fixed (suffix : String) :
    (∀ symbol, suffix.toList <:+ (Symbol.normalize suffix symbol).toList ∧
        Symbol.normalize suffix (Symbol.normalize suffix symbol) =
          Symbol.normalize suffix symbol) ∧
      (∀ first second, Symbol.normalize suffix first = Symbol.normalize suffix second ↔
        first = second ∨ (first = second ++ suffix ∧ ¬suffix.toList <:+ second.toList) ∨
          (second = first ++ suffix ∧ ¬suffix.toList <:+ first.toList)) ∧
      ∀ (kind : FeedKind) (symbol : Option String) (params : ChannelParams),
        ofFeed suffix kind (symbol.map (Symbol.normalize suffix)) params =
            ofFeed suffix kind symbol params ∧
          ofFeed suffix kind symbol { params with levels := some (levels params) } =
            ofFeed suffix kind symbol params ∧
          ofFeed suffix kind symbol
              { params with interval := some (Interval.token params.interval) } =
            ofFeed suffix kind symbol params ∧
          ofFeed suffix kind (symbol.map (Symbol.normalize suffix))
              ⟨some (levels params), some (Interval.token params.interval)⟩ =
            ofFeed suffix kind symbol params := by
  refine ⟨?_, ?_, ?_⟩
  · intro symbol
    exact ⟨Symbol.isNormal_normalize suffix symbol, Symbol.normalize_normalize suffix symbol⟩
  · intro first second
    exact Symbol.normalize_eq_iff
  · intro kind symbol params
    have hsymbol : (symbol.map (Symbol.normalize suffix)).map (Symbol.normalize suffix) =
        symbol.map (Symbol.normalize suffix) := by
      cases symbol <;> simp
    have hlevels : levels ⟨some (levels params), some (Interval.token params.interval)⟩ =
        levels params := rfl
    have htoken := Interval.token_token params.interval
    refine ⟨?_, ?_, ?_, ?_⟩
    · exact ofFeed_congr kind hsymbol rfl rfl
    · exact ofFeed_congr kind rfl hlevels rfl
    · exact ofFeed_congr kind rfl rfl htoken
    · exact ofFeed_congr kind hsymbol hlevels htoken

/-- A suffix that overlaps itself: the symbol in between has it at its end and stays. -/
example : ["a", "aa", "aaa"].map (Symbol.normalize "aa") = ["aaa", "aa", "aaa"] := by
  decide

end Channel

end SpotWire
