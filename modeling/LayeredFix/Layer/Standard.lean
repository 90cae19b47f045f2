import LayeredFix.Layer.Registry
import LayeredFix.Pass.Component
import LayeredFix.Pass.Config
import LayeredFix.Pass.Convention
import LayeredFix.Pass.Entity
import LayeredFix.Pass.Guard
import LayeredFix.Pass.Hardening

/-!
# The standard layers

The six layers that come with the library, and their registry.
-/

namespace LayeredFix.Layer

/-- Layer 1: configuration files. -/
def config : Layer where
  id := 1
  name := "Configuration Validation".toList
  description := "Optimizes TypeScript, Next.js config, and package.json with modern settings.".toList
  transform := Pass.Config.transform

/-- Layer 2: entities. -/
def entities : Layer where
  id := 2
  name := "Pattern & Entity Fixes".toList
  description := "Cleans up HTML entities and escaped punctuation in source text.".toList
  transform := fun t => .ok (Pass.Entity.transform t)

/-- Layer 3: component code. -/
def components : Layer where
  id := 3
  name := "Component Best Practices".toList
  description := "Adds missing key props, image alt text, and missing hook imports.".toList
  transform := fun t => .ok (Pass.Component.transform t)

/-- Layer 4: host guards. -/
def guards : Layer where
  id := 4
  name := "Hydration & SSR Guard".toList
  description := "Fixes hydration bugs and adds SSR/localStorage protection.".toList
  transform := fun t => .ok (Pass.Guard.transform t)

/-- Layer 5: conventions of the framework. -/
def conventions : Layer where
  id := 5
  name := "Next.js Optimization".toList
  description :=
    "Optimizes Next.js App Router patterns, 'use client' directives, and import order.".toList
  transform := fun t => .ok (Pass.Convention.transform t)

/-- Layer 6: hardening. -/
def hardening : Layer where
  id := 6
  name := "Quality & Performance".toList
  description := "Adds error handling, loading states, and export hygiene.".toList
  transform := fun t => .ok (Pass.Hardening.transform t)

/-- The registry of the standard layers. -/
def standard : Registry where
  layers := [config, entities, components, guards, conventions, hardening]
  ascending := by decide

end LayeredFix.Layer
