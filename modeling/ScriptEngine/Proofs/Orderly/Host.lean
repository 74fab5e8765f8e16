import ScriptEngine.Library.Host
import ScriptEngine.Proofs.Orderly.Statements

/-!
Functions of a host are orderly, whatever they do: each of their requests is, and so is what they go on with. What is
taken as given about a run bounds the numbers of nested calls that they report, and says whether they may look at the
end of a script that no script can catch.
-/

namespace ScriptEngine

variable {t : Terms} {own : Rights} {moves : Bool}

/-! ## What a program goes on with -/

namespace HostProgram.Fits

variable {request : HostRequest} {answers : Except HostError (List HostValue) → HostProgram}
variable {name source : String} {length : Nat} {run : HostValue → List HostValue → HostProgram}
variable {value : HostValue} {made : HostValue → HostProgram}
variable {ended : Except HostFailure HostValue → HostProgram} {described : String → HostProgram}

/-- An answer that tells of no other numbers than may be reported. -/
theorem answered (fits : (ask request answers).Fits t) {answer : Except HostError (List HostValue)}
    (honest : ∀ depth, answer = .error (.overflow depth) → t.reported depth) : (answers answer).Fits t where
  hosted := fits.hosted
  reports := fits.reports answer honest
  passes := fits.passes.imp_right fun ⟨passes, alone⟩ =>
    ⟨passes.2 answer, fun enters => alone ⟨answer, enters⟩⟩

/-- If the end of a script may not be looked at, a request that was cut short by too many nested calls is the last. -/
theorem last (fits : (ask request answers).Fits t) :
    t.probed ∨ ∀ depth, answers (.error (.overflow depth)) = .done (.error (.overflow depth)) :=
  fits.passes.imp_right fun ⟨passes, _⟩ => passes.1

/-- A function that it makes. -/
theorem function (fits : (offer name length run made).Fits t) : HostFunction.Fits t ⟨run⟩ := fun this arguments =>
  { hosted := fits.hosted
    reports := fits.reports.1 this arguments
    passes := fits.passes.imp_right fun ⟨passes, alone⟩ =>
      ⟨passes.1 this arguments, fun enters => alone (.inl ⟨this, arguments, enters⟩)⟩ }

theorem offered (fits : (offer name length run made).Fits t) (f : HostValue) : (made f).Fits t where
  hosted := fits.hosted
  reports := fits.reports.2 f
  passes := fits.passes.imp_right fun ⟨passes, alone⟩ => ⟨passes.2 f, fun enters => alone (.inr ⟨f, enters⟩)⟩

theorem entered (fits : (enter source ended).Fits t) {answer : Except HostFailure HostValue}
    (honest : ∀ e depth, answer = .error e → e.depth = some depth → t.reported depth) : (ended answer).Fits t where
  hosted := fits.hosted
  reports := fits.reports answer honest
  passes := fits.passes.imp_right fun ⟨_, alone⟩ => absurd trivial alone

theorem told (fits : (describe value described).Fits t) (text : String) : (described text).Fits t where
  hosted := fits.hosted
  reports := fits.reports text
  passes := fits.passes.imp_right fun ⟨passes, _⟩ => passes.elim

theorem enter_probed (fits : (enter source ended).Fits t) : t.probed :=
  fits.passes.resolve_right fun ⟨_, alone⟩ => alone trivial

theorem describe_probed (fits : (describe value described).Fits t) : t.probed :=
  fits.passes.resolve_right fun ⟨passes, _⟩ => passes

end HostProgram.Fits

namespace Library

/-! ## Requests -/

theorem orderly_of_object {ask : Engine → ObjectId → Eval (List Value)} (value : Value)
    (asked : ∀ id, Orderly t own moves fun E => ask E id) :
    Orderly t own moves fun E => ofObject value (ask E) := by
  unfold ofObject
  split
  · exact asked _
  · exact .pure []

theorem orderly_describe_own (id : ObjectId) (key : String) :
    Orderly t own moves fun _ => describeOwn id key := by
  refine .bind (orderly_get_object id) fun o => ?_
  split
  · exact .bind (orderly_of_property _) fun _ => .pure _
  · exact .pure []

theorem orderly_create_for (held : List ObjectId) (proto : Option HostValue) :
    Orderly t own moves fun _ => createFor held proto := by
  cases proto with
  | none => exact orderly_create_object
  | some proto => exact orderly_create_object_from _

/-- Whatever a function of the host asks for is done in an orderly way. -/
theorem orderly_perform (held : List ObjectId) (request : HostRequest) :
    Orderly t own moves fun E => perform E held request := by
  cases request with
  | globalObject => exact .map _ orderly_get_realm
  | evaluate e => exact .map _ (.evaluate e)
  | call f this arguments => exact .map _ (.call ..)
  | construct f arguments => exact .map _ (.construct ..)
  | get base key => exact .map _ (orderly_get_value_property ..)
  | put base key value strict => exact .map _ (orderly_put_value_property ..)
  | define object key patch throws => exact orderly_of_object _ fun _ => .map _ (orderly_define_property ..)
  | delete object key throws => exact orderly_of_object _ fun _ => .map _ (orderly_delete_property ..)
  | has object key => exact orderly_of_object _ fun _ => .map _ (orderly_ask_heap _)
  | describeOwn object key => exact orderly_of_object _ fun id => orderly_describe_own id key
  | ownKeys object => exact orderly_of_object _ fun _ => .map _ (orderly_get_object _)
  | elements object => exact orderly_of_object _ orderly_to_list
  | toPrimitive value hint => exact .map _ (orderly_to_primitive ..)
  | toNumber value => exact .map _ (orderly_to_number _)
  | toText value => exact .map _ (orderly_to_text _)
  | toObject value => exact .map _ (orderly_to_object _)
  | combine op x y => exact .map _ (orderly_apply_binary ..)
  | typeOf value => exact .map _ (orderly_ask_heap _)
  | createObject proto => exact .map _ (orderly_create_for held proto)
  | createArray items => exact .map _ (orderly_create_array _)
  | createError kind message => exact .map _ (orderly_create_error ..)
  | print line => exact .map _ (.printLine line)

/-! ## Programs -/

/-- A function of the host ends only with numbers of nested calls that may be reported. -/
theorem orderly_done {outcome : Except HostError HostValue} (fits : (HostProgram.done outcome).Fits t)
    (held : List ObjectId) : Orderly t own moves fun E => follow E (.done outcome) held := by
  cases outcome with
  | ok value => exact .pure _
  | error e =>
    cases e with
    | thrown value => exact .raise (.thrown (value.value held)) nofun
    | overflow depth =>
      refine .raise (.overflow depth) ?_
      rintro _ ⟨⟩
      exact fits.reports depth rfl

/-- The numbers of nested calls that a function of the host is told of are those that a script reported. -/
theorem depth_hold_failure {held : List ObjectId} {e : ScriptError} {depth : Nat}
    (told : (holdFailure held e).1.depth = some depth) : e = .overflow depth := by
  cases e with
  | overflow found => rw [Option.some.inj told]
  | unreadable | uncaught | exhausted => cases told

/-- By induction on the program: what it goes on with after each answer fits as well. -/
theorem orderly_follow {p : HostProgram} (fits : p.Fits t) (held : List ObjectId) :
    Orderly t own moves fun E => follow E p held := by
  induction p generalizing held with
  | done outcome => exact orderly_done fits held
  | ask request next ih =>
    simp only [follow]
    refine .attempt (orderly_perform held request) (fun values => ih _ (fits.answered (by nofun)) _) ?failed ?passed
    case failed =>
      intro e honest
      cases e with
      | thrown value => exact ih _ (fits.answered (by nofun)) _
      | overflow depth =>
        have told : ∀ found, (.error (.overflow depth) : Except HostError (List HostValue)) =
            .error (.overflow found) → t.reported found := by
          rintro found ⟨⟩
          exact honest depth rfl
        exact ih _ (fits.answered told) _
      | exhausted => exact .raise .exhausted nofun
    case passed =>
      refine fits.last.imp_right fun last e fatal E => ?_
      cases e with
      | thrown value => exact absurd rfl (fatal value)
      | overflow depth =>
        change follow E (next (.error (.overflow depth))) held = throw (.overflow depth)
        rw [last depth]
        rfl
      | exhausted => rfl
  | offer name length run next _ ih =>
    simp only [follow]
    have known : t.known ⟨name, .host ⟨run⟩, none⟩ := by
      rintro g (⟨⟨⟩⟩ | ⟨⟨⟩⟩)
      exact fits.function
    exact .bind (orderly_create_native name length known) fun id => ih _ (fits.offered _) _
  | enter source next ih =>
    simp only [follow]
    refine orderly_after_source fits.enter_probed source fun outcome honest => ?_
    cases outcome with
    | ok value => exact ih _ (fits.entered (by nofun)) _
    | error e =>
      have told : ∀ f depth, (.error (holdFailure held e).1 : Except HostFailure HostValue) = .error f →
          f.depth = some depth → t.reported depth := by
        rintro _ depth ⟨⟩ same
        exact honest depth (congrArg Except.error (depth_hold_failure same))
      cases e with
      | exhausted => exact .raise .exhausted nofun
      | unreadable | uncaught | overflow => exact ih _ (fits.entered told) _
  | describe value next ih =>
    simp only [follow]
    exact .bind (orderly_describe_thrown fits.describe_probed _) fun text => ih _ (fits.told text) _

theorem orderly_run_host {f : HostFunction} (fits : f.Fits t) (this : Value) (arguments : List Value) :
    Orderly t own moves fun E => runHost E f this arguments :=
  orderly_follow (fits _ _) _

end Library
end ScriptEngine
