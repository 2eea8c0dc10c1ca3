import StratumApps.Sv2.Basic

namespace Sv2

structure RequestExtensions where
  requestId           : UInt16
  requestedExtensions : List UInt16
  deriving DecidableEq

structure RequestExtensionsSuccess where
  requestId           : UInt16
  supportedExtensions : List UInt16
  deriving DecidableEq

structure RequestExtensionsError where
  requestId             : UInt16
  unsupportedExtensions : List UInt16
  requiredExtensions    : List UInt16
  deriving DecidableEq

inductive Extensions
  | requestExtensions (m : RequestExtensions)
  | requestExtensionsSuccess (m : RequestExtensionsSuccess)
  | requestExtensionsError (m : RequestExtensionsError)
  deriving DecidableEq

end Sv2
