import ScriptEngine.Evaluation.Operator
import ScriptEngine.Evaluation.Script
import ScriptEngine.Library.Argument

/-!
How the functions of a host run. A function of the host is a program of requests to the engine; it reaches the objects
that it was given, and those that it was told of since, each by the place in which it came by it. What cuts a request
short is told to it, but for the end of the steps, which ends the function as well.

A host reaches objects by the checked operations only, as scripts do: the operations that put a property or a prototype
into an object without a check are not among the requests.
-/

namespace ScriptEngine

/-! ## What a function of the host holds -/

/-- What a value of a function of the host stands for, which holds some objects. A place without an object stands for
nothing. -/
def HostValue.value (held : List ObjectId) : HostValue → Value
  | undefined => .undefined
  | null => .null
  | boolean b => .boolean b
  | number n => .number n
  | string s => .string s
  | object place =>
    match held[place]? with
    | some id => .object id
    | none => .undefined

/-- What cuts a function of the host short, as the engine has it. -/
def HostError.abrupt (held : List ObjectId) : HostError → Abrupt
  | thrown value => .thrown (value.value held)
  | overflow depth => .overflow depth

/-- The description that a function of the host gives of a property. -/
def HostPatch.patch (held : List ObjectId) (p : HostPatch) : PropertyPatch where
  value := p.value.map (·.value held)
  writable := p.writable
  get := p.get.map fun f => f.bind fun v => (v.value held).asObject?
  set := p.set.map fun f => f.bind fun v => (v.value held).asObject?
  enumerable := p.enumerable
  configurable := p.configurable

namespace Library

/-- A value as a function of the host gets it that holds some objects, and what it holds from then on. -/
def hold (held : List ObjectId) : Value → HostValue × List ObjectId
  | .undefined => (.undefined, held)
  | .null => (.null, held)
  | .boolean b => (.boolean b, held)
  | .number n => (.number n, held)
  | .string s => (.string s, held)
  | .object id => (.object (held.idxOf id), if id ∈ held then held else held ++ [id])

/-- Several values as a function of the host gets them, and what it holds from then on. -/
def holdAll (held : List ObjectId) : List Value → List HostValue × List ObjectId
  | [] => ([], held)
  | v :: rest =>
    let first := hold held v
    let others := holdAll first.2 rest
    (first.1 :: others.1, others.2)

/-- Why a script has no value, as a function of the host is told, and what it holds from then on. -/
def holdFailure (held : List ObjectId) (e : ScriptError) : HostFailure × List ObjectId :=
  match e with
  | .unreadable _ | .exhausted => (⟨e.display, none, none⟩, held)
  | .uncaught value _ => (⟨e.display, some (hold held value).1, none⟩, (hold held value).2)
  | .overflow depth => (⟨e.display, none, some depth⟩, held)

/-! ## Requests -/

/-- What is asked of an object. Nothing answers it for a value that is none. -/
def ofObject (value : Value) (ask : ObjectId → Eval (List Value)) : Eval (List Value) :=
  match value.asObject? with
  | some id => ask id
  | none => return []

/-- An object that describes a property of an object itself, if it has it. -/
def describeOwn (id : ObjectId) (key : String) : Eval (List Value) := do
  match (← getObject id).getOwn? key with
  | some p => return [.object (← ofProperty p)]
  | none => return []

/-- A plain object, or one that inherits from what a function of the host says. -/
def createFor (held : List ObjectId) : Option HostValue → Eval ObjectId
  | none => createObject
  | some proto => createObjectFrom (proto.value held).asObject?

/-- Does what a function of the host asks for, which holds some objects. -/
def perform (engine : Engine) (held : List ObjectId) (request : HostRequest) : Eval (List Value) :=
  match request with
  | .globalObject => (fun realm => [.object realm.globalObject]) <$> getRealm
  | .evaluate e => List.singleton <$> engine.evaluate e
  | .call f this arguments =>
    List.singleton <$> engine.call (f.value held) (this.value held) (arguments.map (·.value held))
  | .construct f arguments => List.singleton <$> engine.construct (f.value held) (arguments.map (·.value held))
  | .get base key => List.singleton <$> getValueProperty engine (base.value held) key
  | .put base key value strict =>
    (fun _ => []) <$> putValueProperty engine (base.value held) key (value.value held) strict
  | .define object key patch throws =>
    ofObject (object.value held) fun id =>
      (fun accepted => [.boolean accepted]) <$> defineProperty engine id key (patch.patch held) throws
  | .delete object key throws =>
    ofObject (object.value held) fun id => (fun removed => [.boolean removed]) <$> deleteProperty id key throws
  | .has object key =>
    ofObject (object.value held) fun id => (fun found => [.boolean found]) <$> askHeap (·.has id key)
  | .describeOwn object key => ofObject (object.value held) fun id => describeOwn id key
  | .ownKeys object =>
    ofObject (object.value held) fun id => (fun o => o.ownKeys.map .string) <$> getObject id
  | .elements object => ofObject (object.value held) fun id => toList engine id
  | .toPrimitive value hint => List.singleton <$> toPrimitive engine (value.value held) hint
  | .toNumber value => (fun n => [.number n]) <$> toNumber engine (value.value held)
  | .toText value => (fun text => [.string text]) <$> toText engine (value.value held)
  | .toObject value => (fun id => [.object id]) <$> toObject (value.value held)
  | .combine op x y => List.singleton <$> applyBinary engine op (x.value held) (y.value held)
  | .typeOf value => (fun text => [.string text]) <$> askHeap (·.typeOf (value.value held))
  | .createObject proto => (fun id => [.object id]) <$> createFor held proto
  | .createArray items => (fun id => [.object id]) <$> createArray (items.map (·.value held))
  | .createError kind message => (fun id => [.object id]) <$> createError kind message
  | .print line => (fun _ => []) <$> printLine line

/-! ## Programs -/

/-- Runs what a function of the host does that holds some objects. -/
def follow (engine : Engine) : HostProgram → (held : List ObjectId) → Eval Value
  | .done (.ok value), held => return value.value held
  | .done (.error e), held => throw (e.abrupt held)
  | .ask request next, held => do
    match ← attempt (perform engine held request) with
    | .ok values => follow engine (next (.ok (holdAll held values).1)) (holdAll held values).2
    | .error (.thrown value) => follow engine (next (.error (.thrown (hold held value).1))) (hold held value).2
    | .error (.overflow depth) => follow engine (next (.error (.overflow depth))) held
    | .error .exhausted => throw .exhausted
  | .offer name length run next, held => do
    let f : Value := .object (← createNative name length (.host ⟨run⟩))
    follow engine (next (hold held f).1) (hold held f).2
  | .enter source next, held => do
    match ← evalSource engine source with
    | .ok value => follow engine (next (.ok (hold held value).1)) (hold held value).2
    | .error .exhausted => throw .exhausted
    | .error e => follow engine (next (.error (holdFailure held e).1)) (holdFailure held e).2
  | .describe value next, held => do
    follow engine (next (← describeThrown engine (value.value held))) held

/-- Calls a function of the host. It holds what it is called on and its arguments from the start. -/
def runHost (engine : Engine) (f : HostFunction) (this : Value) (arguments : List Value) : Eval Value :=
  let receiver := hold [] this
  let given := holdAll receiver.2 arguments
  follow engine (f.run receiver.1 given.1) given.2

end Library

/-! ## Some functions of hosts -/

namespace HostProgram

/-- Ends with a value. -/
def value (v : HostValue) : HostProgram := .done (.ok v)

/-- Makes a request and goes on with the first value that answers it. What cuts it short is passed on. -/
def await (request : HostRequest) (next : HostValue → HostProgram) : HostProgram :=
  .ask request fun
    | .ok values => next (values.headD .undefined)
    | .error e => .done (.error e)

/-- Throws a new error object. -/
def raise (kind : ErrorKind) (message : String) : HostProgram :=
  .await (.createError kind message) fun e => .done (.error (.thrown e))

/-- Runs a script inside the one that is running. Whatever goes wrong in it becomes an error of its own. -/
def runSource (source : String) : HostProgram :=
  .enter source fun
    | .ok v => .value v
    | .error e => .raise .type e.display

end HostProgram

namespace HostFunction

/-- What a function of the host is given first. -/
def first (arguments : List HostValue) : HostValue := arguments.headD .undefined

/-- Twice the number that its argument stands for. -/
def double : HostFunction where
  run _ arguments := .await (.toNumber (first arguments)) fun
    | .number n => .value (.number (n.mul (.ofNat 2)))
    | v => .value v

/-- Throws an error of the host. -/
def reject : HostFunction where
  run _ _ := .raise .range "rejected by host"

/-- The number forty-two. -/
def answer : HostFunction where
  run _ _ := .value (.number (.ofNat 42))

/-- Runs a script inside the running one, or `1 + 1` if it is given none. -/
def reenter : HostFunction where
  run _ arguments :=
    match arguments with
    | [] => .runSource "1 + 1"
    | v :: _ => .await (.toText v) fun
      | .string source => .runSource source
      | text => .value text

/-- The value it is called on. -/
def thisValue : HostFunction where
  run this _ := .value this

/-- Its argument. -/
def identity : HostFunction where
  run _ arguments := .value (first arguments)

/-- How many arguments it is given. -/
def countArguments : HostFunction where
  run _ arguments := .value (.number (.ofNat arguments.length))

/-- Throws its argument. -/
def throwArgument : HostFunction where
  run _ arguments := .done (.error (.thrown (first arguments)))

/-- Fails as if seven calls were nested and no more may be. -/
def fail : HostFunction where
  run _ _ := .done (.error (.overflow 7))

/-- An object that it is given; anything else it stores as a property of what it is called on. -/
def tag : HostFunction where
  run this arguments :=
    match first arguments with
    | .object place => .value (.object place)
    | v => .await (.put this "tag" v true) fun _ => .value .undefined

/-- Calls its argument. -/
def again : HostFunction where
  run _ arguments := .await (.call (first arguments) .undefined []) .value

end HostFunction
end ScriptEngine
