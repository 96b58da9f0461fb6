/-
# Runtime globals

Names that runtimes provide to every script. A new binding does not take them, so that it never hides
a global that the script may rely on.
-/

namespace BindingRepair.Script

/-- The globals that scripts rely on, in ascending order. -/
def knownGlobals : List String :=
  ["AbortController", "AggregateError", "Array", "ArrayBuffer", "Atomics", "BigInt",
    "BigInt64Array", "BigUint64Array", "Blob", "Boolean", "Buffer", "CustomEvent", "DataView",
    "Date", "Document", "Element", "Error", "EvalError", "Event", "EventTarget", "File",
    "FileReader", "FinalizationRegistry", "Float32Array", "Float64Array", "FormData", "Function",
    "HTMLElement", "Headers", "Image", "Infinity", "Int16Array", "Int32Array", "Int8Array",
    "IntersectionObserver", "Intl", "JSON", "Map", "Math", "MutationObserver", "NaN", "Node",
    "Number", "Object", "Promise", "Proxy", "RangeError", "ReferenceError", "Reflect", "RegExp",
    "Request", "ResizeObserver", "Response", "Set", "SharedArrayBuffer", "String", "Symbol",
    "SyntaxError", "TextDecoder", "TextEncoder", "TypeError", "URIError", "URL",
    "URLSearchParams", "Uint16Array", "Uint32Array", "Uint8Array", "Uint8ClampedArray", "WeakMap",
    "WeakRef", "WeakSet", "WebSocket", "Window", "Worker", "XMLHttpRequest", "__dirname",
    "__filename", "alert", "arguments", "atob", "btoa", "cancelAnimationFrame", "clearInterval",
    "clearTimeout", "confirm", "console", "crypto", "decodeURI", "decodeURIComponent", "document",
    "encodeURI", "encodeURIComponent", "eval", "exports", "fetch", "global", "globalThis",
    "history", "isFinite", "isNaN", "localStorage", "location", "module", "navigator",
    "parseFloat", "parseInt", "performance", "process", "prompt", "queueMicrotask",
    "requestAnimationFrame", "require", "screen", "self", "sessionStorage", "setInterval",
    "setTimeout", "structuredClone", "undefined", "window"]

def isKnownGlobal (name : String) : Bool :=
  knownGlobals.contains name

end BindingRepair.Script
